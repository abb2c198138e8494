import Mathlib.Logic.Function.Basic
import SegY.Proofs.Numerals

/-!
# Byte positions on the command line

Four options move the geometry fields.  Their values are positions counted from 1, of which those
are allowed from which a field of four bytes fits into a trace header (`IsPosition`).  Two checks
divide the others among them: a value that is no positive number of 32 bits is refused where it is
read, and a number that is too large for a position where it is made a setting.

* `items_of_given`: however an option is given its value, it is read as the same item.
* `Request.add_byte_of_isPosition`, `Request.add_byte_of_not_isPosition`: the option by itself.
* `Request.foldlM_of_valid`, `Request.foldlM_of_invalid`: the option among others.
* `run_byte_position`: what a run makes of its value.
-/

namespace SegY.CommandLine

/-! ### Options with a value -/

/-- The letter of an option in ASCII. -/
def Flag.code (f : Flag) : UInt8 := UInt8.ofNat f.letter.toNat

/-- The ways to give an option its value: after its letter or after the beginning of its name, in
the same argument or in the next one. -/
inductive Flag.Given (f : Flag) (value : Bytes) : List Bytes → Prop where
  | letter : Given f value [[0x2D, f.code], value]
  | letterJoined (h : value ≠ []) : Given f value [0x2D :: f.code :: value]
  | name {name : Bytes} (h : candidates name = [f]) : Given f value [0x2D :: 0x2D :: name, value]
  | nameJoined {name : Bytes} (h : candidates name = [f]) :
      Given f value [0x2D :: 0x2D :: (name ++ 0x3D :: value)]

theorem items_of_options {a : Bytes} {here : List Item} {pending : Option Pending}
    (h : readArgument a = .options here pending) (rest : List Bytes) :
    items none (a :: rest) = (here ++ (items pending rest).1, (items pending rest).2) := by
  rw [items, h]

/-- What leaves an option without its value, before the value. -/
theorem items_of_pending {a : Bytes} {f : Flag}
    (h : ∃ complaint, readArgument a = .options [] (some ⟨f, complaint⟩)) (value : Bytes)
    (rest : List Bytes) :
    items none (a :: value :: rest) = (.flag f value :: (items none rest).1, (items none rest).2) := by
  obtain ⟨complaint, hread⟩ := h
  rw [items_of_options hread, items]
  rfl

theorem begins_of_candidates {name : Bytes} {f : Flag} (h : candidates name = [f]) :
    name <+: Bytes.ofText f.name := by
  have hf : f ∈ candidates name := by rw [h]; exact List.mem_singleton_self f
  rw [candidates] at hf
  split at hf
  · simpa using (List.mem_filter.mp hf).2
  · have hname := (List.mem_filter.mp hf).2
    rw [beq_iff_eq] at hname
    exact hname ▸ List.prefix_refl _

theorem ne_nil_of_candidates {name : Bytes} {f : Flag} (h : candidates name = [f]) : name ≠ [] := by
  rintro rfl
  cases h

/-- No name has an equals sign, so what follows one is the value. -/
theorem ne_equals_of_candidates {name : Bytes} {f : Flag} (h : candidates name = [f]) :
    ∀ c ∈ name, (c != 0x3D) = true := by
  intro c hc
  have hall : (Bytes.ofText f.name).all (· != 0x3D) = true := by
    cases f with
    | byte g => cases g <;> rfl
    | _ => rfl
  exact List.all_eq_true.mp hall c ((begins_of_candidates h).subset hc)

theorem longOption_of_candidates {name : Bytes} {f : Flag} (hf : f.takesValue = true)
    (h : candidates name = [f]) (value : Bytes) :
    (∃ complaint, longOption name = .options [] (some ⟨f, complaint⟩)) ∧
      longOption (name ++ 0x3D :: value) = .options [.flag f value] none := by
  have hname := ne_equals_of_candidates h
  constructor
  · refine ⟨.ofText s!"option '--{f.name}' requires an argument", ?_⟩
    simp only [longOption, List.takeWhile_eq_self_iff.mpr hname, h, List.drop_length, hf, if_true]
  · have htake : (name ++ 0x3D :: value).takeWhile (· != 0x3D) = name := by
      rw [List.takeWhile_append_of_pos hname, List.takeWhile_cons_of_neg (by decide),
        List.append_nil]
    simp only [longOption, htake, h, List.drop_left, hf, if_true]

theorem readArgument_of_letter (f : Flag) (rest : Bytes) :
    readArgument (0x2D :: f.code :: rest) =
      .options (letterOptions (f.code :: rest)).1 (letterOptions (f.code :: rest)).2 := by
  have hne : f.code ≠ 0x2D := by
    cases f with
    | byte g => cases g <;> decide
    | _ => decide
  rw [readArgument]
  · exact fun h _ => hne h
  · exact hne

theorem readArgument_of_name {text : Bytes} (h : text ≠ []) :
    readArgument (0x2D :: 0x2D :: text) = longOption text := by
  rw [readArgument]
  exact h

theorem letterOptions_of_takesValue {f : Flag} (hf : f.takesValue = true) :
    (∃ complaint, letterOptions [f.code] = ([], some ⟨f, complaint⟩)) ∧
      ∀ value, value ≠ [] → letterOptions (f.code :: value) = ([.flag f value], none) := by
  have hfind : Flag.all.find? (fun f' => UInt8.ofNat f'.letter.toNat == f.code) = some f := by
    cases f with
    | byte g => cases g <;> rfl
    | _ => rfl
  constructor
  · refine ⟨.ofText s!"option requires an argument -- '{f.letter}'", ?_⟩
    simp only [letterOptions, hfind, hf, if_true, List.isEmpty_nil]
  · intro value hvalue
    simp only [letterOptions, hfind, hf, if_true, List.isEmpty_iff, hvalue, if_false]

/-- However an option is given its value, it is read as the same item. -/
theorem items_of_given {f : Flag} (hf : f.takesValue = true) {value : Bytes} {given : List Bytes}
    (h : f.Given value given) (rest : List Bytes) :
    items none (given ++ rest) = (.flag f value :: (items none rest).1, (items none rest).2) := by
  obtain ⟨⟨complaint, hletter⟩, hjoined⟩ := letterOptions_of_takesValue hf
  cases h with
  | letter =>
    refine items_of_pending ⟨complaint, ?_⟩ value rest
    rw [readArgument_of_letter, hletter]
  | letterJoined hvalue =>
    have hread : readArgument (0x2D :: f.code :: value) = .options [.flag f value] none := by
      rw [readArgument_of_letter, hjoined value hvalue]
    exact items_of_options hread rest
  | name hname =>
    refine items_of_pending ?_ value rest
    rw [readArgument_of_name (ne_nil_of_candidates hname)]
    exact (longOption_of_candidates hf hname value).1
  | @nameJoined name hname =>
    have hne : name ++ 0x3D :: value ≠ [] :=
      List.append_ne_nil_of_right_ne_nil _ (List.cons_ne_nil _ _)
    have hread := (longOption_of_candidates hf hname value).2
    rw [← readArgument_of_name hne] at hread
    exact items_of_options hread rest

/-! ### Positions -/

/-- Whether a text spells a number from 1 to 237. -/
structure IsPosition (value : Bytes) (n : Nat) : Prop where
  pos : 1 ≤ n
  le : n ≤ 237
  spelled : ∃ m : Numeral, m.text = value ∧ m.value = n

theorem isPosition_iff {value : Bytes} {n : Nat} :
    IsPosition value n ↔ integer? value = some (n : Int) ∧ 1 ≤ n ∧ n ≤ 237 := by
  rw [integer?_eq_some_iff]
  exact ⟨fun h => ⟨h.spelled, h.pos, h.le⟩, fun h => ⟨h.2.1, h.2.2, h.1⟩⟩

theorem isValid_byte_iff {g : GeometryField} {value : Bytes} :
    (Item.flag (.byte g) value).IsValid ↔ ∃ n, IsPosition value n := by
  simp only [isPosition_iff]
  constructor
  · rintro ⟨n, hn, hlow, hhigh⟩
    obtain ⟨k, rfl⟩ := Int.eq_ofNat_of_zero_le (by omega : 0 ≤ n)
    exact ⟨k, hn, by omega, by omega⟩
  · rintro ⟨n, hn, hlow, hhigh⟩
    exact ⟨n, hn, by omega, by omega⟩

namespace Item

/-- A position is counted from 0 once it is given to its field. -/
theorem byte?_of_isPosition {value : Bytes} {n : Nat} (h : IsPosition value n)
    (g : GeometryField) : (flag (.byte g) value).byte? g = some (n - 1) := by
  rw [byte?, if_pos rfl, (isPosition_iff.mp h).1]
  simp

/-- No other option gives a field its position. -/
theorem byte?_eq_none {item : Item} {g : GeometryField} (h : ∀ value, item ≠ flag (.byte g) value) :
    item.byte? g = none := by
  cases item with
  | fault complaint => rfl
  | flag f value =>
    cases f with
    | byte g' => exact if_neg fun (heq : g = g') => h value (by rw [heq])
    | _ => rfl

end Item

/-- What a run leaves behind that comes to an option with this value, if it is no position. -/
def positionRefusal (g : GeometryField) (value : Bytes) : Outcome :=
  match positive? value with
  | some n => .failure (Error.settings (.lateByte g (n.toInt - 1))).text
  | none =>
    .failure
      (.ofText s!"{(Flag.byte g).name}: expected positive integer, was '" ++ value ++ .ofText "'")

namespace Request

/-- The request with another position for a field, counted from 0. -/
def withByte (r : Request) (g : GeometryField) (position : Nat) : Request :=
  { r with settings := { r.settings with
    byte := Function.update r.settings.byte g position } }

theorem take_byte_of_isPosition {value : Bytes} {n : Nat} (h : IsPosition value n) (r : Request)
    (g : GeometryField) : r.take (.flag (.byte g) value) = r.withByte g (n - 1) := by
  have hbyte (g' : GeometryField) :
      ((Item.flag (.byte g) value).byte? g').getD (r.settings.byte g') =
        Function.update r.settings.byte g (n - 1) g' := by
    by_cases hg : g' = g
    · rw [hg, Item.byte?_of_isPosition h, Function.update_self]
      rfl
    · rw [Item.byte?_eq_none (by simp [Ne.symm hg]), Function.update_of_ne hg]
      rfl
  simp only [take, withByte, hbyte]
  rfl

/-- **A position is taken**, and nothing else changes. -/
theorem add_byte_of_isPosition {value : Bytes} {n : Nat} (h : IsPosition value n) (r : Request)
    (g : GeometryField) : r.add (.flag (.byte g) value) = .ok (r.withByte g (n - 1)) :=
  add_byte_eq_ok_iff.mpr ⟨isValid_byte_iff.mpr ⟨n, h⟩, (take_byte_of_isPosition h r g).symm⟩

/-- **All else is refused.** -/
theorem add_byte_of_not_isPosition {value : Bytes} (h : ∀ n, ¬ IsPosition value n) (r : Request)
    (g : GeometryField) : r.add (.flag (.byte g) value) = .error (positionRefusal g value) := by
  have hlast : (GeometryField.lastByte : Int) = 236 := rfl
  show (positiveValue _ value >>= fun k => r.set (.byte g (k - 1))) = _
  rw [positiveValue, positionRefusal]
  cases hpositive : positive? value with
  | none => rfl
  | some k =>
    obtain ⟨hk, hlow⟩ := positive?_eq_some_iff.mp hpositive
    have hhigh : 237 < k.toInt := by
      by_contra hle
      refine h k.toInt.toNat (isPosition_iff.mpr ⟨?_, by omega, by omega⟩)
      rw [hk, Int.toNat_of_nonneg (by omega)]
    have hsub := toInt_sub_one_of_one_le hlow
    have hrefused : r.settings.apply (.byte g (k - 1)) = .error (.lateByte g (k.toInt - 1)) := by
      simp only [Settings.apply, Int32.lt_iff_toInt_lt, hsub, Int32.toInt_zero, hlast]
      rw [if_neg (by omega), if_pos (by omega)]
    show r.set (.byte g (k - 1)) = _
    rw [set, hrefused]

/-! ### An option among others -/

theorem foldlM_of_valid {found : List Item}
    (h : ∀ item ∈ found, item.IsValid ∧ item.answer? = none) :
    found.foldlM add {} = .ok (asked found) := by
  rcases foldlM_add found with ⟨-, hok⟩ | ⟨item, hitem, o, -, ⟨text, htext, -⟩ | ⟨-, hinvalid, -⟩⟩
  · exact hok
  · exact absurd (htext.symm.trans (h item hitem).2) (by simp)
  · exact absurd (h item hitem).1 hinvalid

/-- An option that is not valid ends the run as a failure, whatever comes after it, unless a text
was asked for before.  It is the first such option that decides. -/
theorem foldlM_of_invalid {before : List Item} {item : Item} (hinvalid : ¬ item.IsValid)
    (hnone : item.answer? = none) (hbefore : ∀ other ∈ before, other.answer? = none)
    (after : List Item) :
    ∃ o, (before ++ item :: after).foldlM add {} = .error o ∧ o.IsFailure ∧
      ((∀ other ∈ before, other.IsValid) → (asked before).add item = .error o) := by
  rw [List.foldlM_append]
  rcases foldlM_add before with ⟨-, hok⟩ | ⟨early, hearly, o, herror, ho⟩
  · rw [hok]
    cases hadd : (asked before).add item with
    | ok r => exact absurd (add_eq_ok_iff.mp hadd).1 hinvalid
    | error o =>
      refine ⟨o, ?_, isFailure_of_add hnone hadd, fun _ => rfl⟩
      exact Except.bind_eq_error_iff.mpr (.inr ⟨_, rfl, Except.bind_eq_error_iff.mpr (.inl hadd)⟩)
  · rcases ho with ⟨text, htext, -⟩ | ⟨-, hearlier, hfailure⟩
    · exact absurd (htext.symm.trans (hbefore early hearly)) (by simp)
    · refine ⟨o, Except.bind_eq_error_iff.mpr (.inl herror), hfailure, fun hvalid => ?_⟩
      exact absurd (hvalid early hearly) hearlier

end Request

/-- The part of an option is that of the last one, if no later one has the part. -/
theorem last?_of_later {α : Type} {part : Item → Option α} {item : Item} {a : α}
    (hitem : part item = some a) {after : List Item} (hafter : ∀ later ∈ after, part later = none)
    (before : List Item) : last? part (before ++ item :: after) = some a := by
  have hlate : after.filterMap part = [] := List.filterMap_eq_nil_iff.mpr hafter
  rw [last?, List.filterMap_append, List.filterMap_cons_some hitem, hlate, List.getLast?_concat]

/-! ### What a run makes of a value -/

/-- **Byte positions are the numbers from 1 to 237.**  Take an option for a byte position, and any
text as its value.  However the option is given the value, it is read as the same item; and the
number in it can be collected in 64 bits and used in 32, since no limit of these is taken for a
number that is beyond it.  Now take any arguments that are read with this item among the others.

If the text is a numeral for a number from 1 to 237, then the option moves its field there, counted
from 0, and changes nothing else.  If the other options are valid and ask for no text, no later one
moves the field again, and one operand is given, then the file that it names is looked at with the
field there.

For every other text the run fails with status 1, and before it looks at any file, unless the help or
the version is asked for earlier.  If the options before it are valid, then the complaint is about
this value. -/
theorem run_byte_position (g : GeometryField) (value : Bytes) :
    (∀ given, (Flag.byte g).Given value given → ∀ rest, items none (given ++ rest) =
      (.flag (.byte g) value :: (items none rest).1, (items none rest).2)) ∧
    positive? value = (checkedInt value).toOption.filter (· ≠ 0) ∧
    ∀ (arguments operands : List Bytes) (before after : List Item),
      items none arguments = (before ++ .flag (.byte g) value :: after, operands) →
      (∀ n, IsPosition value n →
        (∀ r : Request, r.add (.flag (.byte g) value) = .ok (r.withByte g (n - 1))) ∧
        ((∀ item ∈ before ++ after, item.IsValid ∧ item.answer? = none) →
          (∀ later, Item.flag (.byte g) later ∉ after) → ∀ name, operands = [name] →
          ∃ r : Request, Request.ofArguments arguments = .ok (r, name) ∧
            r.settings.byte g = n - 1 ∧ ∀ d, run d arguments = r.run name (d.read name))) ∧
      ((∀ n, ¬ IsPosition value n) → (∀ item ∈ before, item.answer? = none) →
        ∃ o, Request.ofArguments arguments = .error o ∧ o.IsFailure ∧
          (∀ d, run d arguments = o) ∧
          ((∀ item ∈ before, item.IsValid) → o = positionRefusal g value)) := by
  refine ⟨fun given hgiven rest => items_of_given rfl hgiven rest, positive?_eq_checkedInt value, ?_⟩
  intro arguments operands before after h
  refine ⟨fun n hn => ⟨fun r => r.add_byte_of_isPosition hn g, ?_⟩, fun hno hbefore => ?_⟩
  · intro hothers hlater name hname
    have hall : ∀ item ∈ before ++ .flag (.byte g) value :: after,
        item.IsValid ∧ item.answer? = none := by
      intro item hitem
      rcases List.mem_append.mp hitem with hitem | hitem
      · exact hothers item (List.mem_append_left _ hitem)
      · rcases List.mem_cons.mp hitem with rfl | hitem
        · exact ⟨isValid_byte_iff.mpr ⟨n, hn⟩, rfl⟩
        · exact hothers item (List.mem_append_right _ hitem)
    have hlast : last? (Item.byte? g) (before ++ .flag (.byte g) value :: after) = some (n - 1) :=
      last?_of_later (Item.byte?_of_isPosition hn g) (fun item hitem => Item.byte?_eq_none
        fun later heq => hlater later (heq ▸ hitem)) before
    have harguments := Request.ofArguments_of_operand h (Request.foldlM_of_valid hall) hname
    refine ⟨_, harguments, ?_, fun d => by rw [run, harguments]⟩
    show (last? (Item.byte? g) _).getD g.standardByte = n - 1
    rw [hlast]
    rfl
  · have hinvalid : ¬ (Item.flag (.byte g) value).IsValid := fun hvalid => by
      obtain ⟨n, hn⟩ := isValid_byte_iff.mp hvalid
      exact hno n hn
    obtain ⟨o, herror, hfailure, hdecides⟩ :=
      Request.foldlM_of_invalid hinvalid rfl hbefore after
    have harguments := Request.ofArguments_of_error h herror
    refine ⟨o, harguments, hfailure, fun d => by rw [run, harguments], fun hvalid => ?_⟩
    rw [Request.add_byte_of_not_isPosition hno] at hdecides
    exact (Except.error.inj (hdecides hvalid)).symm

/-- The last position, with a tab, a sign and a leading zero; and an empty text, a negative zero, the
first number that is no position, a text that goes on, and a number that no word holds. -/
theorem run_byte_position_limits :
    (∃ r : Request,
      Request.ofArguments [.ofText "--iline", .ofText "\t+0237", [0x61]] = .ok (r, [0x61]) ∧
        r.settings.byte .inline = 236) ∧
    ∀ value ∈ ["", "-0", "238", "237 ", "18446744073709551617"].map Bytes.ofText,
      ∀ d, let outcome := run d [.ofText "--il=" ++ value, [0x61]]
        outcome = positionRefusal .inline value ∧ outcome.status = 1 := by
  constructor
  · obtain ⟨-, -, hrun⟩ := run_byte_position .inline (.ofText "\t+0237")
    obtain ⟨haccepted, -⟩ :=
      hrun [.ofText "--iline", .ofText "\t+0237", [0x61]] [[0x61]] [] [] (by decide)
    obtain ⟨r, harguments, hbyte, -⟩ := (haccepted 237 (isPosition_iff.mpr (by decide))).2
      (fun item hitem => absurd hitem List.not_mem_nil) (fun _ => List.not_mem_nil) [0x61] rfl
    exact ⟨r, harguments, hbyte⟩
  · have hread : ∀ value ∈ ["", "-0", "238", "237 ", "18446744073709551617"].map Bytes.ofText,
        (integer? value).all (fun n => decide (n < 1 ∨ 237 < n)) = true := by
      decide
    intro value hvalue d outcome
    have hno : ∀ n, ¬ IsPosition value n := by
      intro n hn
      have hout := hread value hvalue
      rw [(isPosition_iff.mp hn).1, Option.all_some, decide_eq_true_eq] at hout
      have hlow := hn.pos
      have hhigh := hn.le
      omega
    obtain ⟨hgiven, -, hrun⟩ := run_byte_position .inline value
    have hname : candidates (.ofText "il") = [.byte .inline] := rfl
    have hitems := hgiven [.ofText "--il=" ++ value] (.nameJoined hname) [[0x61]]
    obtain ⟨o, -, hfailure, ho, hrefusal⟩ := (hrun _ [[0x61]] [] [] hitems).2 hno
      (fun item hitem => absurd hitem List.not_mem_nil)
    have houtcome : outcome = o := ho d
    rw [houtcome]
    exact ⟨hrefusal fun item hitem => absurd hitem List.not_mem_nil, hfailure.status⟩

end SegY.CommandLine
