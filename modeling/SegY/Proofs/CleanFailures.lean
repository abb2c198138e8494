import SegY.Proofs.FieldExtremes
import SegY.Proofs.ScanOutcome
import SegY.Proofs.SettingCalls

/-!
# Failures of the command line

The options are taken one after the other, and each of them is valid or not for its value alone.
As long as they are valid they leave the settings that the options so far denote, each setting by
the last option that sets it (`denoted`); the first that is not valid, or that asks for the help or
the version, decides (`foldlM_add`).  Nothing is printed before the file was opened, so a failure
leaves the standard output empty, and there is always a complaint on the other one.

* `add_eq_ok_iff`, `ends_of_add`: one more option.
* `foldlM_add`: all options.
* `Opens`: what has to be right for a summary.
* `run_clean`: what a run leaves behind.
-/

namespace SegY

theorem SampleFormat.ofCode?_eq_some_iff {n : Int} {format : SampleFormat} :
    ofCode? n = some format ↔ (format.code : Int) = n := by
  constructor
  · intro h
    rw [ofCode?] at h
    simpa using List.find?_some h
  · rintro rfl
    exact format.ofCode?_code

namespace CommandLine

/-! ### What options denote -/

/-- The version of the program. -/
def version : String := s!"{programName} (seisio version 0.1.0)\n"

namespace Item

/-- The position that an item gives to a geometry field, counted from 0. -/
def byte? (g : GeometryField) : Item → Option Nat
  | flag (.byte g') value => if g = g' then (integer? value).map fun n => (n - 1).toNat else none
  | _ => none

/-- The format that an item forces. -/
def format? : Item → Option SampleFormat
  | flag .format value => (integer? value).bind SampleFormat.ofCode?
  | _ => none

/-- The byte order that an item forces. -/
def order? : Item → Option ByteOrder
  | flag .littleEndian _ => some .little
  | flag .bigEndian _ => some .big
  | _ => none

/-- The step that an item sets. -/
def step? : Item → Option Nat
  | flag .step value => (integer? value).map Int.toNat
  | _ => none

/-- Whether an item asks for the text header. -/
def asksForText : Item → Bool
  | flag .text _ => true
  | _ => false

/-- What is printed at once for an item. -/
def answer? : Item → Option String
  | flag .help _ => some usage
  | flag .version _ => some version
  | _ => none

/-- Whether an item is an option, with a value that is allowed. -/
def IsValid : Item → Prop
  | flag (.byte _) value => ∃ n, integer? value = some n ∧ 1 ≤ n ∧ n ≤ 237
  | flag .format value => ∃ format : SampleFormat, integer? value = some (format.code : Int)
  | flag .step value => ∃ n, integer? value = some n ∧ 1 ≤ n ∧ n ≤ 2147483647
  | flag _ _ => True
  | fault _ => False

theorem eq_usage_or_version {item : Item} {text : String} (h : item.answer? = some text) :
    text = usage ∨ text = version := by
  cases item with
  | fault => cases h
  | flag f value => cases f <;> cases h <;> simp

end Item

/-- The part of the last of the items that have it. -/
def last? {α : Type} (part : Item → Option α) (found : List Item) : Option α :=
  (found.filterMap part).getLast?

/-- The settings that options denote: each is set by the last option for it. -/
def denoted (found : List Item) : Settings where
  byte g := (last? (Item.byte? g) found).getD g.standardByte
  format := last? Item.format? found
  endianness := last? Item.order? found
  step := (last? Item.step? found).getD 1

/-- The request that options denote. -/
def asked (found : List Item) : Request := ⟨denoted found, found.any Item.asksForText⟩

/-- A request with one more option. -/
def Request.take (r : Request) (item : Item) : Request where
  settings := { r.settings with
    byte := fun g => (item.byte? g).getD (r.settings.byte g)
    format := item.format?.or r.settings.format
    endianness := item.order?.or r.settings.endianness
    step := item.step?.getD r.settings.step }
  text := item.asksForText || r.text

theorem last?_concat {α : Type} (part : Item → Option α) (found : List Item) (item : Item) :
    last? part (found ++ [item]) = (part item).or (last? part found) := by
  rw [last?, List.filterMap_append, List.getLast?_append]
  cases h : part item <;> simp [h, last?]

theorem asked_concat (found : List Item) (item : Item) :
    asked (found ++ [item]) = (asked found).take item := by
  have hgetD {α : Type} (x y : Option α) (z : α) : (x.or y).getD z = x.getD (y.getD z) := by
    cases x <;> rfl
  have htext : (found ++ [item]).any Item.asksForText =
      (item.asksForText || found.any Item.asksForText) := by
    simp [Bool.or_comm]
  simp only [asked, denoted, Request.take, last?_concat, hgetD, htext]

/-! ### One more option -/

/-- Whether a run fails, with something on the standard error and nothing on the other output. -/
structure Outcome.IsFailure (o : Outcome) : Prop where
  status : o.status = 1
  stdout : o.stdout = []
  stderr : o.stderr ≠ []

theorem Outcome.isFailure_failure (complaint : Bytes) : (Outcome.failure complaint).IsFailure :=
  ⟨rfl, rfl, List.append_ne_nil_of_right_ne_nil _ (by decide)⟩

/-- Whether an item that is not taken ends the run like this: with the text that it asks for, or as
a failure because it is not valid. -/
def Item.Ends (item : Item) (o : Outcome) : Prop :=
  (∃ text, item.answer? = some text ∧ o = .success text) ∨
    item.answer? = none ∧ ¬ item.IsValid ∧ o.IsFailure

theorem ofText_append_ne_nil (a : String) {b : String} (h : Bytes.ofText b ≠ []) :
    Bytes.ofText (a ++ b) ≠ [] := by
  rw [Bytes.ofText_append]
  exact List.append_ne_nil_of_right_ne_nil _ h

theorem Outcome.isFailure_misuse (complaint : Bytes) : (Outcome.misuse complaint).IsFailure :=
  ⟨rfl, rfl, List.append_ne_nil_of_right_ne_nil _ (ofText_append_ne_nil _ (by decide))⟩

theorem exists_toInt {n : Int} (hlow : -2147483648 ≤ n) (hhigh : n ≤ 2147483647) :
    ∃ k : Int32, k.toInt = n :=
  ⟨Int32.ofInt n, Int32.toInt_ofInt_of_le hlow (by omega)⟩

theorem toInt_sub_one_of_one_le {n : Int32} (h : 1 ≤ n.toInt) : (n - 1).toInt = n.toInt - 1 :=
  Settings.toInt_sub_one (Int32.lt_iff_toInt_lt.mpr (by rw [Int32.toInt_zero]; omega))

theorem positive?_eq_some_iff {value : Bytes} {n : Int32} :
    positive? value = some n ↔ integer? value = some n.toInt ∧ 1 ≤ n.toInt := by
  have hmax : Int32.maxValue.toInt = 2147483647 := rfl
  rw [positive?]
  cases integer? value with
  | none => simp
  | some k =>
    simp only [hmax, Option.some.injEq]
    split
    · next h =>
      have hk : (Int32.ofInt k).toInt = k := Int32.toInt_ofInt_of_le (by omega) (by omega)
      rw [Option.some.injEq, ← Int32.toInt_inj, hk]
      exact ⟨fun heq => ⟨heq, heq ▸ h.1⟩, fun heq => heq.1⟩
    · next h =>
      have hn := n.toInt_lt
      simp only [reduceCtorEq, false_iff, not_and]
      omega

theorem positiveValue_eq_ok_iff {f : Flag} {value : Bytes} {n : Int32} :
    positiveValue f value = .ok n ↔ integer? value = some n.toInt ∧ 1 ≤ n.toInt := by
  rw [← positive?_eq_some_iff, positiveValue]
  cases positive? value <;> simp

theorem isFailure_of_positiveValue {f : Flag} {value : Bytes} {o : Outcome}
    (h : positiveValue f value = .error o) : o.IsFailure := by
  rw [positiveValue] at h
  split at h
  · cases h
  · cases h
    exact Outcome.isFailure_failure _

namespace Request

theorem set_eq_ok_iff {r r' : Request} {x : Setting} :
    r.set x = .ok r' ↔ ∃ s, r.settings.apply x = .ok s ∧ r' = { r with settings := s } := by
  rw [set]
  cases r.settings.apply x <;> simp [eq_comm]

theorem isFailure_of_set {r : Request} {x : Setting} {o : Outcome} (h : r.set x = .error o) :
    o.IsFailure := by
  rw [set] at h
  split at h
  · cases h
  · cases h
    exact Outcome.isFailure_failure _

/-- An option that asks for a text ends the run with it. -/
theorem add_of_answer {item : Item} {text : String} (h : item.answer? = some text) (r : Request) :
    r.add item = .error (.success text) := by
  cases item with
  | fault => cases h
  | flag f value =>
    cases f <;> cases h <;> rfl

/-- An option that asks for none, and is not taken, ends the run as a failure. -/
theorem isFailure_of_add {r : Request} {item : Item} {o : Outcome} (hnone : item.answer? = none)
    (h : r.add item = .error o) : o.IsFailure := by
  cases item with
  | fault complaint =>
    cases h
    exact Outcome.isFailure_misuse _
  | flag f value =>
    cases f with
    | byte g | step =>
      rcases Except.bind_eq_error_iff.mp h with h | ⟨n, -, h⟩
      · exact isFailure_of_positiveValue h
      · exact isFailure_of_set h
    | format =>
      rcases Except.bind_eq_error_iff.mp h with h | ⟨n, hn, h⟩
      · exact isFailure_of_positiveValue h
      · split at h
        · exact isFailure_of_set h
        · rw [hn] at h
          cases h
          exact Outcome.isFailure_failure _
    | littleEndian => exact isFailure_of_set (x := .endianness .little) h
    | bigEndian => exact isFailure_of_set (x := .endianness .big) h
    | text => cases h
    | version | help => cases hnone

/-- A byte position is taken from 1 to 237, and then counted from 0. -/
theorem add_byte_eq_ok_iff {r r' : Request} {g : GeometryField} {value : Bytes} :
    r.add (.flag (.byte g) value) = .ok r' ↔
      (Item.flag (.byte g) value).IsValid ∧ r' = r.take (.flag (.byte g) value) := by
  have hlast : (GeometryField.lastByte : Int) = 236 := rfl
  have htake {n : Int} (hn : integer? value = some n) : r.take (.flag (.byte g) value) =
      { r with settings := { r.settings with
        byte := fun g' => if g' = g then (n - 1).toNat else r.settings.byte g' } } := by
    have hbyte (g' : GeometryField) : (if g' = g then (n - 1).toNat else r.settings.byte g') =
        ((Item.flag (.byte g) value).byte? g').getD (r.settings.byte g') := by
      rw [Item.byte?, hn]
      split <;> rfl
    simp only [hbyte]
    rfl
  show (positiveValue _ value >>= fun n => r.set (.byte g (n - 1))) = .ok r' ↔ _
  simp only [Except.bind_eq_ok_iff, positiveValue_eq_ok_iff, set_eq_ok_iff,
    Settings.apply_byte_eq_ok_iff, hlast]
  constructor
  · rintro ⟨n, ⟨hn, hpos⟩, s, ⟨-, hle, rfl⟩, rfl⟩
    rw [toInt_sub_one_of_one_le hpos] at hle ⊢
    exact ⟨⟨n.toInt, hn, hpos, by omega⟩, (htake hn).symm⟩
  · rintro ⟨⟨n, hn, hpos, hle⟩, rfl⟩
    obtain ⟨k, rfl⟩ := exists_toInt (by omega : -2147483648 ≤ n) (by omega)
    refine ⟨k, ⟨hn, hpos⟩, _, ⟨?_, ?_, rfl⟩, ?_⟩
    · rw [Int32.le_iff_toInt_le, toInt_sub_one_of_one_le hpos, Int32.toInt_zero]
      omega
    · rw [toInt_sub_one_of_one_le hpos]
      omega
    · rw [toInt_sub_one_of_one_le hpos, htake hn]

/-- A format is taken by its code. -/
theorem add_format_eq_ok_iff {r r' : Request} {value : Bytes} :
    r.add (.flag .format value) = .ok r' ↔
      (Item.flag .format value).IsValid ∧ r' = r.take (.flag .format value) := by
  have htake {format : SampleFormat} (hvalue : integer? value = some (format.code : Int)) :
      r.take (.flag .format value) =
        { r with settings := { r.settings with format := some format } } := by
    simp [Request.take, Item.byte?, Item.format?, Item.order?, Item.step?, Item.asksForText, hvalue]
  constructor
  · intro h
    obtain ⟨n, hn, h⟩ := Except.bind_eq_ok_iff.mp h
    split at h
    · next format hcode =>
      rw [positiveValue_eq_ok_iff, ← SampleFormat.ofCode?_eq_some_iff.mp hcode] at hn
      obtain ⟨s, hs, rfl⟩ := set_eq_ok_iff.mp h
      cases hs
      exact ⟨⟨format, hn.1⟩, (htake hn.1).symm⟩
    · rw [hn] at h
      cases h
  · rintro ⟨⟨format, hvalue⟩, rfl⟩
    have hcode : 1 ≤ format.code ∧ format.code ≤ 16 := by cases format <;> decide
    obtain ⟨k, hk⟩ := exists_toInt (n := (format.code : Int)) (by omega) (by omega)
    have hn : positiveValue .format value = .ok k :=
      positiveValue_eq_ok_iff.mpr ⟨hk ▸ hvalue, by omega⟩
    refine Except.bind_eq_ok_iff.mpr ⟨k, hn, ?_⟩
    rw [hk, SampleFormat.ofCode?_code, htake hvalue]
    rfl

/-- Every positive step is taken. -/
theorem add_step_eq_ok_iff {r r' : Request} {value : Bytes} :
    r.add (.flag .step value) = .ok r' ↔
      (Item.flag .step value).IsValid ∧ r' = r.take (.flag .step value) := by
  have hword {n : Int32} : (UInt64.ofNat n.toInt.toNat).toNat = n.toInt.toNat := by
    have hlt := n.toInt_lt
    have hsize : UInt64.size = 18446744073709551616 := rfl
    exact UInt64.toNat_ofNat_of_lt' (by omega)
  have htake {n : Int} (hn : integer? value = some n) : r.take (.flag .step value) =
      { r with settings := { r.settings with step := n.toNat } } := by
    simp [Request.take, Item.byte?, Item.format?, Item.order?, Item.step?, Item.asksForText, hn]
  show (positiveValue _ value >>= fun n => r.set (.step (UInt64.ofNat n.toInt.toNat))) = .ok r' ↔ _
  simp only [Except.bind_eq_ok_iff, positiveValue_eq_ok_iff, set_eq_ok_iff,
    Settings.apply_step_eq_ok_iff]
  constructor
  · rintro ⟨n, ⟨hn, hpos⟩, s, ⟨-, rfl⟩, rfl⟩
    have hlt := n.toInt_lt
    rw [hword, htake hn]
    exact ⟨⟨n.toInt, hn, hpos, by omega⟩, rfl⟩
  · rintro ⟨⟨n, hn, hpos, hle⟩, rfl⟩
    obtain ⟨k, rfl⟩ := exists_toInt (by omega : -2147483648 ≤ n) hle
    refine ⟨k, ⟨hn, hpos⟩, _, ⟨fun hzero => ?_, rfl⟩, by rw [hword, htake hn]⟩
    have hzero' := congrArg UInt64.toNat hzero
    rw [hword] at hzero'
    change k.toInt.toNat = 0 at hzero'
    omega

/-- **One more option**: it is taken exactly if it is valid and does not ask for a text. -/
theorem add_eq_ok_iff {r r' : Request} {item : Item} :
    r.add item = .ok r' ↔ item.IsValid ∧ item.answer? = none ∧ r' = r.take item := by
  have htaken {item : Item} (hadd : r.add item = .ok (r.take item)) (hvalid : item.IsValid)
      (hnone : item.answer? = none) :
      r.add item = .ok r' ↔ item.IsValid ∧ item.answer? = none ∧ r' = r.take item := by
    rw [hadd, Except.ok.injEq]
    exact ⟨fun heq => ⟨hvalid, hnone, heq.symm⟩, fun h => h.2.2.symm⟩
  cases item with
  | fault complaint => simp [add, Item.IsValid]
  | flag f value =>
    cases f with
    | byte g => simp [add_byte_eq_ok_iff, Item.answer?]
    | format => simp [add_format_eq_ok_iff, Item.answer?]
    | step => simp [add_step_eq_ok_iff, Item.answer?]
    | littleEndian => exact htaken rfl trivial rfl
    | bigEndian => exact htaken rfl trivial rfl
    | text => exact htaken rfl trivial rfl
    | version | help => simp [add, Item.answer?]

/-- An option that is not taken asks for a text or is not valid. -/
theorem ends_of_add {r : Request} {item : Item} {o : Outcome} (h : r.add item = .error o) :
    item.Ends o := by
  cases hanswer : item.answer? with
  | some text =>
    rw [add_of_answer hanswer] at h
    cases h
    exact .inl ⟨text, hanswer, rfl⟩
  | none =>
    refine .inr ⟨hanswer, fun hvalid => ?_, isFailure_of_add hanswer h⟩
    exact Except.ok_ne_error ((add_eq_ok_iff.mpr ⟨hvalid, hanswer, rfl⟩).symm.trans h)

/-! ### All options -/

/-- **What the options amount to.**  If all are valid and none asks for a text, then they leave the
settings that they denote.  Otherwise one of them ends the run, with its text or as a failure. -/
theorem foldlM_add (found : List Item) :
    (∀ item ∈ found, item.IsValid ∧ item.answer? = none) ∧
        found.foldlM add {} = .ok (asked found) ∨
      ∃ item ∈ found, ∃ o, found.foldlM add {} = .error o ∧ item.Ends o := by
  -- from the end, since the last option overrides those before it
  induction found using List.reverseRecOn with
  | nil => exact .inl ⟨fun _ h => absurd h List.not_mem_nil, rfl⟩
  | append_singleton found item ih =>
    rw [List.foldlM_append]
    rcases ih with ⟨hall, hok⟩ | ⟨early, hearly, o, herror, ho⟩
    · have hstep : (do let r ← found.foldlM add {}; [item].foldlM add r) =
          (asked found).add item := by
        rw [hok]
        exact bind_pure (m := Except Outcome) _
      rw [hstep]
      cases hadd : (asked found).add item with
      | ok r =>
        obtain ⟨hvalid, hnone, rfl⟩ := add_eq_ok_iff.mp hadd
        left
        rw [asked_concat]
        refine ⟨fun other hother => ?_, rfl⟩
        rcases List.mem_append.mp hother with hother | hother
        · exact hall other hother
        · rw [List.mem_singleton.mp hother]
          exact ⟨hvalid, hnone⟩
      | error o =>
        exact .inr ⟨item, List.mem_append_right _ (List.mem_singleton_self _), o, rfl,
          ends_of_add hadd⟩
    · refine .inr ⟨early, List.mem_append_left _ hearly, o, ?_, ho⟩
      rw [herror]
      rfl

end Request

/-! ### What is printed -/

/-- The lines of a summary before those about the ranges. -/
def opening (name : Bytes) (f : File) : Bytes :=
  let report := f.report
  line 18 "file:" name ++ (f.label.map labelLines).getD [] ++ binaryLines f.binary ++
    fileLine "traces:" (toString f.size) ++
    fileLine "scan:"
      s!"{report.reason.description} at byte {report.offset} after {report.records} records"

/-- The lines about all four ranges, from the low values to the high ones. -/
def rangeLines (low high : GeometryField → Int32) : Bytes :=
  ([.inline, .crossline, .cdpX, .cdpY].map fun g =>
    fileLine (rangeHeading g) s!"{low g} - {high g}").flatten

/-- The lines of a summary after those about the ranges. -/
def closing (f : File) (text : Bool) : Bytes :=
  if text then .ofText "\n" ++ (f.textLines.map fun l => l ++ Bytes.ofText "\n").flatten else []

theorem summary_eq (name : Bytes) (f : File) (text : Bool) : summary name f text = opening name f ++
    (rangeLine f .inline ++ rangeLine f .crossline ++ rangeLine f .cdpX ++ rangeLine f .cdpY) ++
    closing f text := by
  rw [opening, closing, summary]
  cases f.label <;> simp only [Option.map_none, Option.map_some, Option.getD_none, Option.getD_some,
    List.append_assoc]

theorem head?_ofText_append {a : String} {c : UInt8} (h : (Bytes.ofText a).head? = some c)
    (b : String) : (Bytes.ofText (a ++ b)).head? = some c := by
  rw [Bytes.ofText_append, List.head?_append, h]
  rfl

/-- No summary is the help or the version: it begins with another letter. -/
theorem summary_ne_of_answer {item : Item} {answer : String} (h : item.answer? = some answer)
    (name : Bytes) (f : File) (text : Bool) : summary name f text ≠ .ofText answer := by
  have hsummary : (summary name f text).head? = some 0x66 := by
    have hline : (line 18 "file:" name).head? = some 0x66 := by
      rw [line, List.append_assoc, List.head?_append, head?_ofText_append (c := 0x66) (by decide)]
      rfl
    simp only [summary_eq, opening, List.append_assoc, List.head?_append, hline, Option.some_or]
  have husage : (Bytes.ofText usage).head? = some 0x75 := by
    unfold usage
    repeat refine head?_ofText_append ?_ _
    decide
  have hversion : (Bytes.ofText version).head? = some 0x73 := by decide
  intro heq
  rw [heq] at hsummary
  rcases item.eq_usage_or_version h with rfl | rfl
  · rw [husage] at hsummary
    exact absurd hsummary (by decide)
  · rw [hversion] at hsummary
    exact absurd hsummary (by decide)

theorem warning_ne_nil_iff (name : Bytes) (f : File) :
    warning name f ≠ [] ↔ f.report.reason ∉ [.endOfFile, .traceLimit] := by
  have hprinted : Bytes.ofText "warning: " ≠ [] := by decide
  rw [warning]
  cases f.report.reason <;> simp [isComplete, hprinted]

/-- There are lines about all four ranges exactly if the file has traces, and else about none. -/
theorem rangeLines_iff (f : File) :
    let ranges :=
      rangeLine f .inline ++ rangeLine f .crossline ++ rangeLine f .cdpX ++ rangeLine f .cdpY
    ((∃ low high, ranges = rangeLines low high) ↔ 0 < f.size) ∧ (f.size = 0 → ranges = []) := by
  intro ranges
  have hnone : f.size = 0 → ranges = [] := fun hsize => by
    simp only [ranges, rangeLine_of_nil (List.length_eq_zero_iff.mp hsize), List.append_nil]
  refine ⟨⟨?_, fun hsize => ?_⟩, hnone⟩
  · rintro ⟨low, high, hranges⟩
    refine Nat.pos_of_ne_zero fun hsize => ?_
    rw [hnone hsize] at hranges
    have hline (heading content : String) : fileLine heading content ≠ [] :=
      List.append_ne_nil_of_right_ne_nil _ (by decide)
    exact hline _ _ (List.append_eq_nil_iff.mp hranges.symm).1
  · choose low high _ _ hline using
      fun g => rangeLine_eq (List.length_pos_iff.mp hsize) (f := f) g
    refine ⟨low, high, ?_⟩
    simp only [ranges, hline, rangeLines, List.map_cons, List.map_nil, List.flatten_cons,
      List.flatten_nil, List.append_nil, List.append_assoc]

/-! ### What a run leaves behind -/

/-- Whether options are valid, and the one operand leads to a file that opens under the settings
that they denote. -/
structure Opens (d : Directory) (found : List Item) (operands : List Bytes) (name : Bytes)
    (f : File) : Prop where
  valid : ∀ item ∈ found, item.IsValid
  operand : operands = [name]
  opened : ∃ content, d.read name = .ok content ∧ File.ofBytes (denoted found) content = .ok f

/-- Arguments lead to one file at most. -/
theorem Opens.unique {d : Directory} {found : List Item} {operands : List Bytes}
    {name name' : Bytes} {f f' : File} (h : Opens d found operands name f)
    (h' : Opens d found operands name' f') : name = name' ∧ f = f' := by
  obtain ⟨-, hname, content, hcontent, hf⟩ := h
  obtain ⟨-, hname', content', hcontent', hf'⟩ := h'
  cases hname.symm.trans hname'
  cases hcontent.symm.trans hcontent'
  exact ⟨rfl, Except.ok.inj (hf.symm.trans hf')⟩

namespace Request

variable {arguments : List Bytes} {found : List Item} {operands : List Bytes}
  (h : items none arguments = (found, operands))
include h

theorem ofArguments_of_error {o : Outcome} (herror : found.foldlM add {} = .error o) :
    ofArguments arguments = .error o := by
  rw [ofArguments, h]
  exact Except.bind_eq_error_iff.mpr (.inl herror)

theorem ofArguments_of_operand {r : Request} {name : Bytes} (hok : found.foldlM add {} = .ok r)
    (hname : operands = [name]) : ofArguments arguments = .ok (r, name) := by
  subst hname
  rw [ofArguments, h]
  exact Except.bind_eq_ok_iff.mpr ⟨r, hok, rfl⟩

theorem ofArguments_of_operands {r : Request} (hok : found.foldlM add {} = .ok r)
    (hne : ∀ name, operands ≠ [name]) : ofArguments arguments = .error (.misuse []) := by
  rw [ofArguments, h]
  refine Except.bind_eq_error_iff.mpr (.inr ⟨r, hok, ?_⟩)
  split
  · next name => exact absurd rfl (hne name)
  · rfl

end Request

section Run

variable (d : Directory) {arguments : List Bytes} {found : List Item} {operands : List Bytes}

/-- A request for a file fails, or the file opens and is described. -/
theorem Request.run_cases (r : Request) (name : Bytes) :
    (∃ content f, d.read name = .ok content ∧ File.ofBytes r.settings content = .ok f ∧
        r.run name (d.read name) = ⟨0, summary name f r.text, warning name f⟩) ∨
      (∀ content f, d.read name = .ok content → File.ofBytes r.settings content ≠ .ok f) ∧
        (r.run name (d.read name)).IsFailure := by
  cases hopened : ((d.read name).mapError Error.system).bind (File.ofBytes r.settings) with
  | ok f =>
    obtain ⟨content, hcontent, hf⟩ := Except.bind_eq_ok_iff.mp hopened
    refine .inl ⟨content, f, Except.mapError_eq_ok_iff.mp hcontent, hf, ?_⟩
    rw [Request.run, hopened]
  | error e =>
    refine .inr ⟨fun content f hcontent hf => ?_, ?_⟩
    · rw [hcontent] at hopened
      exact Except.ok_ne_error (hf.symm.trans hopened)
    · rw [Request.run, hopened]
      exact Outcome.isFailure_failure _

/-- The three ends of a run: a text that was asked for, a failure, and the summary of a file. -/
theorem run_cases (h : items none arguments = (found, operands)) :
    (∃ item ∈ found, ∃ text, item.answer? = some text ∧ run d arguments = .success text) ∨
    (∀ name f, ¬ Opens d found operands name f) ∧ (run d arguments).IsFailure ∨
    ∃ name f, Opens d found operands name f ∧
      run d arguments = ⟨0, summary name f (found.any Item.asksForText), warning name f⟩ := by
  rw [run]
  rcases Request.foldlM_add found with ⟨hall, hok⟩ | ⟨item, hitem, o, herror, ho⟩
  · by_cases hname : ∃ name, operands = [name]
    · obtain ⟨name, hname⟩ := hname
      rw [Request.ofArguments_of_operand h hok hname]
      rcases (asked found).run_cases d name with ⟨content, f, hcontent, hf, hrun⟩ | ⟨hnone, hrun⟩
      · exact .inr (.inr ⟨name, f,
          ⟨fun item hitem => (hall item hitem).1, hname, content, hcontent, hf⟩, hrun⟩)
      · refine .inr (.inl ⟨fun name' f hopens => ?_, hrun⟩)
        obtain ⟨-, hname', content, hcontent, hf⟩ := hopens
        cases hname.symm.trans hname'
        exact hnone content f hcontent hf
    · rw [not_exists] at hname
      rw [Request.ofArguments_of_operands h hok hname]
      exact .inr (.inl ⟨fun name f hopens => hname name hopens.operand, Outcome.isFailure_misuse _⟩)
  · rw [Request.ofArguments_of_error h herror]
    rcases ho with ⟨text, htext, rfl⟩ | ⟨-, hinvalid, ho⟩
    · exact .inl ⟨item, hitem, text, htext, rfl⟩
    · exact .inr (.inl ⟨fun name f hopens => hinvalid (hopens.valid item hitem), ho⟩)

/-- **A run fails cleanly, or says all of the file.**  Take any directory and any arguments, and let
them be read into options and operands.  If the status is not zero, then the standard output is
empty, and the standard error is not.

If the status is zero, and neither the help nor the version was printed, then all options are valid,
one operand is given, and it leads to a file that opens under the settings that the options denote.
There is a warning exactly if the scan stopped for another reason than the end of the file or the
limit on traces.  Between the lines about the file and its text header, if that was asked for, there
are the lines about all four ranges exactly if the file has traces, and else none.

Conversely, if all options are valid, one operand is given, and it leads to a file that opens, then
the status is zero; and neither the help nor the version is printed if no option asks for it. -/
theorem run_clean (arguments : List Bytes) :
    let found := (items none arguments).1
    let operands := (items none arguments).2
    let outcome := run d arguments
    (outcome.status ≠ 0 → outcome.stdout = [] ∧ outcome.stderr ≠ []) ∧
    (outcome.status = 0 → outcome.stdout ≠ .ofText usage → outcome.stdout ≠ .ofText version →
      ∃ name f ranges, Opens d found operands name f ∧
        (outcome.stderr ≠ [] ↔ f.report.reason ∉ [.endOfFile, .traceLimit]) ∧
        outcome.stdout = opening name f ++ ranges ++ closing f (found.any Item.asksForText) ∧
        ((∃ low high, ranges = rangeLines low high) ↔ 0 < f.size) ∧
        (f.size = 0 → ranges = [])) ∧
    ∀ name f, Opens d found operands name f → outcome.status = 0 ∧
      ((∀ item ∈ found, item.answer? = none) →
        outcome.stdout ≠ .ofText usage ∧ outcome.stdout ≠ .ofText version) := by
  intro found operands outcome
  have hcases := run_cases d (rfl : items none arguments = (found, operands))
  change (∃ item ∈ found, ∃ text, _ ∧ outcome = _) ∨ _ ∧ outcome.IsFailure ∨
    ∃ name f, _ ∧ outcome = _ at hcases
  refine ⟨fun hstatus => ?_, fun hstatus husage hversion => ?_, fun name f hopens => ?_⟩
  · rcases hcases with ⟨item, -, text, -, ho⟩ | ⟨-, ho⟩ | ⟨name, f, -, ho⟩
    · exact absurd (congrArg Outcome.status ho) hstatus
    · exact ⟨ho.stdout, ho.stderr⟩
    · exact absurd (congrArg Outcome.status ho) hstatus
  · rcases hcases with ⟨item, -, text, htext, ho⟩ | ⟨-, ho⟩ | ⟨name, f, hopens, ho⟩
    · rcases Item.eq_usage_or_version htext with rfl | rfl
      · exact absurd (congrArg Outcome.stdout ho) husage
      · exact absurd (congrArg Outcome.stdout ho) hversion
    · exact absurd (ho.status.symm.trans hstatus) (by decide)
    · obtain ⟨hranges, hnone⟩ := rangeLines_iff f
      refine ⟨name, f, _, hopens, ?_, ?_, hranges, hnone⟩
      · rw [ho]
        exact warning_ne_nil_iff name f
      · rw [ho]
        exact summary_eq name f _
  · rcases hcases with ⟨item, hitem, text, htext, ho⟩ | ⟨hnone, -⟩ | ⟨name', f', -, ho⟩
    · refine ⟨congrArg Outcome.status ho, fun hno => ?_⟩
      exact absurd (htext.symm.trans (hno item hitem)) (by simp)
    · exact absurd hopens (hnone name f)
    · refine ⟨congrArg Outcome.status ho, fun _ => ?_⟩
      rw [ho]
      have hhelp : (Item.flag .help []).answer? = some usage := rfl
      have hversion : (Item.flag .version []).answer? = some version := rfl
      exact ⟨summary_ne_of_answer hhelp name' f' _, summary_ne_of_answer hversion name' f' _⟩

/-- Of two steps the last one is in force, and a step of zero is refused. -/
theorem run_clean_sevenEightNine : ∃ d : Directory, d.read [0x61] = .ok Reader.sevenEightNine ∧
    let complaint := run d [[0x2D, 0x73, 0x30], [0x61]]
    let outcome := run d [[0x2D, 0x73, 0x33], [0x61], [0x2D, 0x73, 0x32]]
    (complaint.status ≠ 0 ∧ complaint.stdout = [] ∧ complaint.stderr ≠ []) ∧
    outcome.status = 0 ∧ ∃ f ranges, File.ofBytes { step := 2 } Reader.sevenEightNine = .ok f ∧
      (outcome.stderr ≠ [] ↔ f.report.reason ∉ [.endOfFile, .traceLimit]) ∧
      outcome.stdout = opening [0x61] f ++ ranges ++ closing f false ∧
      ∃ low high, ranges = rangeLines low high := by
  obtain ⟨d, hd⟩ : ∃ d : Directory, d.read [0x61] = .ok Reader.sevenEightNine :=
    ⟨{ files := [(⟨.here, [0x61]⟩, Reader.sevenEightNine)] }, rfl⟩
  refine ⟨d, hd, ?_⟩
  intro complaint outcome
  have hrefused : complaint.status ≠ 0 := by
    show (1 : UInt8) ≠ 0
    decide
  obtain ⟨hclean, -⟩ := run_clean d [[0x2D, 0x73, 0x30], [0x61]]
  obtain ⟨f, t, hopen, -, -, ht, -⟩ := Reader.ofBytes_sevenEightNine 2
  obtain ⟨f₀, hf, hf₀⟩ := Except.map_eq_ok_iff.mp hopen
  cases hf₀
  have hopens : Opens d [.flag .step [0x33], .flag .step [0x32]] [[0x61]] [0x61] f := by
    refine ⟨fun item hitem => ?_, rfl, _, hd, hf⟩
    rcases List.mem_pair.mp hitem with rfl | rfl
    · exact ⟨3, by decide, by decide, by decide⟩
    · exact ⟨2, by decide, by decide, by decide⟩
  obtain ⟨-, hsummary, hconverse⟩ := run_clean d [[0x2D, 0x73, 0x33], [0x61], [0x2D, 0x73, 0x32]]
  obtain ⟨hstatus, hprinted⟩ := hconverse [0x61] f hopens
  obtain ⟨husage, hversion⟩ := hprinted (by decide)
  obtain ⟨name, f', ranges, hopens', hwarning, hstdout, hranges, -⟩ :=
    hsummary hstatus husage hversion
  obtain ⟨rfl, rfl⟩ := hopens.unique hopens'
  have hsize : 0 < f.size := List.length_pos_of_mem (File.mem_of_trace ht)
  exact ⟨⟨hrefused, hclean hrefused⟩, hstatus, f, ranges, hf, hwarning, hstdout,
    hranges.mpr hsize⟩

end Run

end CommandLine

end SegY
