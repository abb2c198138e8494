import SegY.Proofs.WriterSteps

/-!
# New files — all or nothing, unless they are cut short

Everything that goes into a new file is encoded before the file is made, so headers that cannot be
encoded leave nothing behind, and neither does a path that leads to a file that there is.  But the
headers are written once the file is there, and what a write leaves of them that stops at the limit
on the length of files is not cut away again, as it is for a trace (`Writer.CutShort`).

* `Writer.create_cases`: the three ways in which making a file ends.
* `Writer.create_all_or_nothing`: when a file is made, and what making it changes.
* `Writer.create_leaves_part`: a failure that leaves a file behind.
-/

namespace SegY

namespace Directory

variable {d : Directory} {l : Location}

theorem replace_of_lookup_eq_none {files : List (Location × Bytes)} (h : lookup l files = none)
    (content : Bytes) : replace l content files = files ++ [(l, content)] := by
  induction files with
  | nil => rfl
  | cons file rest ih =>
      by_cases hl : file.1 = l
      · simp [lookup, hl] at h
      · rw [lookup, if_neg hl] at h
        rw [replace, if_neg hl, ih h, List.cons_append]

/-- What comes behind the files hides none of them. -/
theorem lookup_append {files : List (Location × Bytes)} {content : Bytes}
    (h : lookup l files = some content) (more : List (Location × Bytes)) :
    lookup l (files ++ more) = some content := by
  induction files with
  | nil => cases h
  | cons file rest ih =>
      rw [List.cons_append]
      by_cases hl : file.1 = l
      · rw [lookup, if_pos hl] at h ⊢
        exact h
      · rw [lookup, if_neg hl] at h ⊢
        exact ih h

/-- A new file comes behind the old ones. -/
theorem put_of_get?_eq_none (h : d.get? l = none) (content : Bytes) :
    d.put l content = { d with files := d.files ++ [(l, content)] } := by
  rw [put, replace_of_lookup_eq_none h]

/-- Where a path can make a file there is none. -/
theorem get?_of_vacancy {path : Bytes} (h : d.vacancy path = .ok l) : d.get? l = none := by
  unfold vacancy at h
  split at h
  · cases h
  · cases h
  · split at h
    · cases h
    · split at h
      · cases h
      · split at h
        · cases h
        · next hhas =>
          cases h
          simpa [has] using hhas

end Directory

namespace Writer

variable {d : Directory} {name text : Bytes} {s : Settings} {binary : BinaryHeader}
  {label : Option TapeLabel}

/-! ### The three ends of making a file -/

/-- Headers can be encoded unless the text is too long, or the block size of the label has more
digits than there is room for. -/
theorem exists_headers_iff : (∃ begin, headers text binary label = .ok begin) ↔
    text.length ≤ 3200 ∧ ∀ l, label = some l → l.maxBlockSize.toNat < 10000000000 := by
  simp only [headers_eq_ok_iff]
  constructor
  · rintro ⟨-, htext, start, hstart, -⟩
    refine ⟨htext, ?_⟩
    rintro l rfl
    exact (TapeLabel.toBytes_eq_ok_iff.mp hstart).1
  · rintro ⟨htext, hlabel⟩
    cases label with
    | none => exact ⟨_, htext, [], rfl, rfl⟩
    | some l => exact ⟨_, htext, _, TapeLabel.toBytes_eq_ok_iff.mpr ⟨hlabel l rfl, rfl⟩, rfl⟩

/-- Whether the headers of a new file are longer than a file may become; the part is what fits. -/
structure CutShort (d : Directory) (name text : Bytes) (binary : BinaryHeader)
    (label : Option TapeLabel) (l : Location) (part : Bytes) : Prop where
  /-- The path can make the file. -/
  vacancy : d.vacancy name = .ok l
  /-- The headers can be encoded, but not written. -/
  cut : ∃ begin limit, headers text binary label = .ok begin ∧ d.limit = some limit ∧
    limit < begin.length ∧ part = begin.take limit

/-- A new file whose headers are cut short stays where it is. -/
theorem create_of_cutShort {l : Location} {part : Bytes}
    (h : CutShort d name text binary label l part) :
    create d name s text binary label = ({ d with files := d.files ++ [(l, part)] },
      .error (.system (.headersUnwritten name .fileTooLarge))) := by
  obtain ⟨begin, limit, hbegin, hlimit, hlt, rfl⟩ := h.cut
  have hroom : (d.put l []).room 0 begin.length = limit := by
    simp only [Directory.room, Directory.put, hlimit]
    omega
  have hlength : (begin.take limit).length ≠ begin.length := by
    rw [List.length_take]
    omega
  have hwrite := Directory.write_end_eq (Directory.get?_put d l []) begin
  rw [List.length_nil, hroom, Directory.put_put, List.nil_append, beq_false_of_ne hlength] at hwrite
  simp only [create, hbegin, Directory.create, h.vacancy, hwrite]
  rw [Directory.put_of_get?_eq_none (Directory.get?_of_vacancy h.vacancy)]

/-- Making a file is refused, goes well, or is cut short. -/
theorem create_cases (d : Directory) (name text : Bytes) (s : Settings) (binary : BinaryHeader)
    (label : Option TapeLabel) :
    (∃ e, create d name s text binary label = (d, .error e)) ∨
      (∃ begin l, headers text binary label = .ok begin ∧ d.vacancy name = .ok l ∧
        d.Allows begin.length) ∨
      ∃ l part, CutShort d name text binary label l part := by
  cases hbegin : headers text binary label with
  | error e => exact .inl ⟨.header e, by simp only [create, hbegin]⟩
  | ok begin =>
      cases hvacancy : d.vacancy name with
      | error cause =>
          exact .inl ⟨.system (.uncreated name cause),
            by simp only [create, hbegin, Directory.create, hvacancy]⟩
      | ok l =>
          right
          by_cases hallows : d.Allows begin.length
          · exact .inl ⟨begin, l, rfl, rfl, hallows⟩
          · simp only [Directory.Allows, not_forall, Nat.not_le] at hallows
            obtain ⟨limit, hlimit, hlt⟩ := hallows
            exact .inr ⟨l, _, hvacancy, begin, limit, hbegin, hlimit, hlt, rfl⟩

/-! ### What making a file changes -/

theorem exists_create_iff : (∃ w, (create d name s text binary label).2 = .ok w) ↔
    ∃ begin l, headers text binary label = .ok begin ∧ d.vacancy name = .ok l ∧
      d.Allows begin.length := by
  constructor
  · rintro ⟨w, hw⟩
    rcases create_cases d name text s binary label with ⟨e, he⟩ | h | ⟨l, part, hcut⟩
    · rw [he] at hw
      cases hw
    · exact h
    · rw [create_of_cutShort hcut] at hw
      cases hw
  · rintro ⟨begin, l, hbegin, hvacancy, hallows⟩
    rw [create_of_allows hbegin hvacancy hallows]
    exact ⟨_, rfl⟩

/-- A file that was made is the only new one, and holds its headers. -/
theorem directory_of_create {w : Writer} (hw : (create d name s text binary label).2 = .ok w) :
    d.get? w.location = none ∧
      (create d name s text binary label).1.find name = .ok w.location ∧
      ∃ begin, headers text binary label = .ok begin ∧
        (create d name s text binary label).1 =
          { d with files := d.files ++ [(w.location, begin)] } := by
  have h : create d name s text binary label =
      ((create d name s text binary label).1, .ok w) := Prod.ext rfl hw
  obtain ⟨begin, l, hbegin, hvacancy, hd, rfl⟩ := of_create h
  have hfree := Directory.get?_of_vacancy hvacancy
  rw [hd]
  refine ⟨hfree, Directory.find_of_vacancy hvacancy ?_, begin, hbegin,
    Directory.put_of_get?_eq_none hfree begin⟩
  rw [Directory.has, Directory.get?_put, Option.isSome_some]

/-- A failure changes nothing unless the headers are cut short. -/
theorem directory_of_create_error {e : Error}
    (he : (create d name s text binary label).2 = .error e)
    (hwhole : ∀ l part, ¬ CutShort d name text binary label l part) :
    (create d name s text binary label).1 = d := by
  rcases create_cases d name text s binary label with ⟨e', he'⟩ | h | ⟨l, part, hcut⟩
  · rw [he']
  · obtain ⟨w, hw⟩ := (exists_create_iff (s := s)).mpr h
    cases hw.symm.trans he
  · exact absurd hcut (hwhole l part)

/-- However making a file ends, the files that there are stay as they are. -/
theorem get?_create {l : Location} {content : Bytes} (h : d.get? l = some content) :
    (create d name s text binary label).1.get? l = some content := by
  rcases create_cases d name text s binary label with ⟨e, he⟩ | hmade | ⟨l', part, hcut⟩
  · rwa [he]
  · obtain ⟨w, hw⟩ := (exists_create_iff (s := s)).mpr hmade
    obtain ⟨-, -, begin, -, hd⟩ := directory_of_create hw
    rw [hd]
    exact Directory.lookup_append h _
  · rw [create_of_cutShort hcut]
    exact Directory.lookup_append h _

/-- **Making a file is all or nothing, unless its headers are cut short.**  For every directory with
or without a limit, and all that a new file is made with: a file is made exactly if the text has at
most 3200 bytes, the block size of the label at most ten digits, the path leads to a place without a
file, and a file may become as long as the headers.

Then the directory has one more file, which the path leads to and which holds the label, the text
padded with blanks and the binary header.  If it is not made, then nothing has changed; only where
nothing but the limit is in the way a file is left that holds what fits.  In no case a file that
there was has changed. -/
theorem create_all_or_nothing (d : Directory) (name text : Bytes) (s : Settings)
    (binary : BinaryHeader) (label : Option TapeLabel) :
    let made := create d name s text binary label
    ((∃ w, made.2 = .ok w) ↔
      text.length ≤ 3200 ∧ (∀ l, label = some l → l.maxBlockSize.toNat < 10000000000) ∧
        (∃ l, d.vacancy name = .ok l) ∧ d.Allows ((if label.isSome then 128 else 0) + 3600)) ∧
    (∀ w, made.2 = .ok w → d.get? w.location = none ∧ made.1.find name = .ok w.location ∧
      ∃ start, labelBytes label = .ok start ∧ made.1 = { d with files := d.files ++
        [(w.location, start ++ (text ++ List.replicate (3200 - text.length) 0x20) ++
          binary.toBytes)] }) ∧
    (∀ e, made.2 = .error e → (∀ l part, ¬ CutShort d name text binary label l part) →
      made.1 = d) ∧
    (∀ l part, CutShort d name text binary label l part →
      made = ({ d with files := d.files ++ [(l, part)] },
        .error (.system (.headersUnwritten name .fileTooLarge)))) ∧
    ∀ l content, d.get? l = some content → made.1.get? l = some content := by
  intro made
  have hlength : ∀ {begin}, headers text binary label = .ok begin →
      begin.length = (if label.isSome then 128 else 0) + 3600 := fun h => by
    rw [length_of_headers h, File.extendedStart, File.binaryStart, File.textStart, Nat.add_assoc]
    rfl
  refine ⟨?_, fun w hw => ?_, fun e he hwhole => directory_of_create_error he hwhole,
    fun l part hcut => create_of_cutShort hcut, fun l content h => get?_create h⟩
  · rw [exists_create_iff, ← and_assoc, ← @exists_headers_iff text binary label]
    constructor
    · rintro ⟨begin, l, hbegin, hvacancy, hallows⟩
      exact ⟨⟨begin, hbegin⟩, ⟨l, hvacancy⟩, hlength hbegin ▸ hallows⟩
    · rintro ⟨⟨begin, hbegin⟩, ⟨l, hvacancy⟩, hallows⟩
      exact ⟨begin, l, hbegin, hvacancy, hlength hbegin ▸ hallows⟩
  · obtain ⟨hfree, hfind, begin, hbegin, hd⟩ := directory_of_create hw
    obtain ⟨-, start, hstart, rfl⟩ := headers_eq_ok_iff.mp hbegin
    exact ⟨hfree, hfind, start, hstart, hd⟩

/-- **Not every failure leaves nothing behind**: where files may have a thousand bytes, those of a
text header stay. -/
theorem create_leaves_part :
    ¬ ∀ (d : Directory) (name text : Bytes) (s : Settings) (binary : BinaryHeader)
      (label : Option TapeLabel) (e : Error), (create d name s text binary label).2 = .error e →
        (create d name s text binary label).1 = d := by
  intro hall
  let d : Directory := { limit := some 1000 }
  obtain ⟨begin, hbegin⟩ := (@exists_headers_iff [] .blank none).mpr
    ⟨by decide, fun l h => by cases h⟩
  have hlong : 1000 < begin.length := by
    rw [length_of_headers hbegin]
    decide
  have hcut : CutShort d [0x61] [] .blank none ⟨.here, [0x61]⟩ (begin.take 1000) :=
    ⟨rfl, begin, 1000, hbegin, rfl, hlong, rfl⟩
  have hmade := create_of_cutShort (s := {}) hcut
  have hsame := hall d [0x61] [] {} .blank none _ (congrArg Prod.snd hmade)
  rw [hmade] at hsame
  exact absurd (congrArg Directory.files hsame) (List.cons_ne_nil _ _)

end Writer

end SegY
