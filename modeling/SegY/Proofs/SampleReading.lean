import SegY.File
import SegY.Proofs.Layout
import SegY.Proofs.Results

/-!
# Reading samples

With every sample read, a range of a file is read as it is stored (`File.readBytes_eq_slice`), and
as floats sample by sample (`File.read_of_samples`).  If a range lies in the file, then its end is
not after the file even where it wraps, so the file can be of any size.
-/

namespace SegY.File

variable {f : File} {t : Trace}

theorem checkRange_of_fits (hend : t.start + t.length ≤ f.image.size) :
    f.checkRange t = .ok () := by
  have hle : dataEnd t ≤ f.image.size := Nat.le_trans (Nat.mod_le _ _) hend
  rw [checkRange, if_neg (Nat.not_lt.mpr hle)]

/-- Pieces that lie in the file can be had. -/
theorem pieces_eq_ok {width stride count : Nat}
    (h : ∀ k < count,
      t.start + k * stride + min width (t.length - k * stride) ≤ f.image.size) :
    f.pieces t width stride count = .ok ((List.range count).map fun k =>
      f.image.slice (t.start + k * stride) (min width (t.length - k * stride))) := by
  simp only [pieces]
  rw [if_neg]
  rintro ⟨hpos, hshort⟩
  have hlast := h (count - 1) (by omega)
  omega

/-- A range that lies in the file is read as it is stored. -/
theorem readBytes_eq_slice (hstep : f.settings.step = 1)
    (hend : t.start + t.length ≤ f.image.size) :
    f.readBytes t = .ok (f.image.slice t.start t.length) := by
  have hpieces : f.pieces t t.length t.length 1 = .ok [f.image.slice t.start t.length] := by
    rw [pieces_eq_ok fun k hk => by rw [Nat.lt_one_iff.mp hk, Nat.zero_mul]; omega]
    simp
  rw [readBytes, checkRange_of_fits hend, hstep]
  simp only [hpieces, if_true]
  simp [bind, Except.bind, pure, Except.pure]

section Samples

variable {stored : List Bytes} (hwidth : ∀ b ∈ stored, b.length = f.width)
  (hslice : f.image.slice t.start t.length = stored.flatten)
  (hlength : t.length = stored.length * f.width)
include hwidth hslice hlength

/-- The pieces of a range of samples, one sample wide, are the samples. -/
theorem pieces_of_samples (hend : t.start + t.length ≤ f.image.size) :
    f.pieces t f.width f.width stored.length = .ok stored := by
  have hfits : ∀ k < stored.length, k * f.width + f.width ≤ t.length := fun k hk => by
    rw [hlength, ← Nat.succ_mul]
    exact Nat.mul_le_mul_right _ hk
  have hpiece : ∀ k < stored.length, f.image.slice (t.start + k * f.width)
      (min f.width (t.length - k * f.width)) = Bytes.slice stored.flatten (k * f.width) f.width :=
    fun k hk => by
      have hk := hfits k hk
      rw [Nat.min_eq_left (by omega), ← hslice, Image.slice_eq, Image.slice_eq,
        Bytes.slice_slice hk]
  rw [pieces_eq_ok fun k hk => by have := hfits k hk; omega]
  refine congrArg Except.ok ((List.map_congr_left fun k hk => ?_).trans
    (Bytes.map_slice_flatten hwidth))
  exact hpiece k (List.mem_range.mp hk)

/-- A range of whole samples is read sample by sample. -/
theorem read_of_samples (hstep : f.settings.step = 1) (hend : t.start + t.length ≤ f.image.size)
    {decode : ByteOrder → Bytes → Float32Word}
    (hdecode : f.binary.format.decoder = .ok decode) :
    f.read t = .ok (stored.map (decode f.binary.order)) := by
  have hwhole : f.checkWhole t = .ok () := by
    rw [checkWhole, hlength, Nat.mul_mod_left, if_pos rfl]
  have hpos : 0 < f.width := f.binary.format.width_pos
  have hcount : countEvery 1 (f.samples t) = stored.length := by
    rw [samples, hlength, Nat.mul_div_cancel _ hpos, countEvery, Nat.add_sub_cancel, Nat.div_one]
  have hpieces := pieces_of_samples hwidth hslice hlength hend
  simp only [read, checkRange_of_fits hend, hwhole, hdecode, hstep, hcount, Nat.one_mul,
    hpieces, Except.mapError_ok, bind, Except.bind, pure, Except.pure]

end Samples

end SegY.File
