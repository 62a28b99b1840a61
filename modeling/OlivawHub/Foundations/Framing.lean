import Mathlib.Algebra.Group.Nat.Defs
import Mathlib.Data.List.Basic

/-!
# Length-prefixed records

A record is the length of its payload as a little-endian `u32`, then the payload. `frames` puts
records one after the other, and `unframe` reads them back as far as they are complete. Whatever
is cut off the end, the records before the cut are read back as they were
(`unframe_isPrefix`, `le_length_unframe`). Any bytes at all split into complete records and a
tail that is none, in exactly one way (`exists_splits`, `Splits.unique`).
-/

namespace OlivawHub.Foundations

/-- `u32::to_le_bytes`. -/
def toLeBytes (n : Nat) : List UInt8 :=
  [UInt8.ofNat n, UInt8.ofNat (n / 2 ^ 8), UInt8.ofNat (n / 2 ^ 16), UInt8.ofNat (n / 2 ^ 24)]

/-- `u32::from_le_bytes`. -/
def fromLeBytes (b₀ b₁ b₂ b₃ : UInt8) : Nat :=
  b₀.toNat + 256 * (b₁.toNat + 256 * (b₂.toNat + 256 * b₃.toNat))

@[simp] theorem length_toLeBytes (n : Nat) : (toLeBytes n).length = 4 := rfl

theorem fromLeBytes_toLeBytes {n : Nat} (h : n < 2 ^ 32) :
    fromLeBytes (UInt8.ofNat n) (UInt8.ofNat (n / 2 ^ 8)) (UInt8.ofNat (n / 2 ^ 16))
      (UInt8.ofNat (n / 2 ^ 24)) = n := by
  simp only [fromLeBytes, UInt8.toNat_ofNat']
  omega

/-- One record. -/
def frame (p : List UInt8) : List UInt8 := toLeBytes p.length ++ p

/-- Records one after the other. -/
def frames (ps : List (List UInt8)) : List UInt8 := ps.flatMap frame

@[simp] theorem frames_nil : frames [] = [] := rfl

@[simp] theorem frames_cons (p : List UInt8) (ps : List (List UInt8)) :
    frames (p :: ps) = frame p ++ frames ps := List.flatMap_cons

@[simp] theorem frames_append (ps qs : List (List UInt8)) :
    frames (ps ++ qs) = frames ps ++ frames qs := List.flatMap_append

theorem frames_concat (ps : List (List UInt8)) (p : List UInt8) :
    frames (ps ++ [p]) = frames ps ++ frame p := by
  rw [frames_append, frames_cons, frames_nil, List.append_nil]

theorem frames_take_isPrefix (ps : List (List UInt8)) (k : Nat) :
    frames (ps.take k) <+: frames ps :=
  ⟨frames (ps.drop k), by rw [← frames_append, List.take_append_drop]⟩

/-- The payloads of the complete records at the start. -/
def unframe (bytes : List UInt8) : List (List UInt8) :=
  match bytes with
  | b₀ :: b₁ :: b₂ :: b₃ :: rest =>
      if fromLeBytes b₀ b₁ b₂ b₃ ≤ rest.length then
        rest.take (fromLeBytes b₀ b₁ b₂ b₃) :: unframe (rest.drop (fromLeBytes b₀ b₁ b₂ b₃))
      else []
  | _ => []
termination_by bytes.length
decreasing_by
  simp only [List.length_cons, List.length_drop]
  omega

/-- A payload whose length fits the header. -/
def Fits (p : List UInt8) : Prop := p.length < 2 ^ 32

instance (p : List UInt8) : Decidable (Fits p) := inferInstanceAs (Decidable (p.length < 2 ^ 32))

variable {p tail image : List UInt8} {ps : List (List UInt8)}

theorem unframe_of_short (h : image.length < 4) : unframe image = [] := by
  rcases image with _ | ⟨_, _ | ⟨_, _ | ⟨_, _ | ⟨_, _⟩⟩⟩⟩
  · rw [unframe]
    nofun
  · rw [unframe]
    nofun
  · rw [unframe]
    nofun
  · rw [unframe]
    nofun
  · simp only [List.length_cons] at h
    omega

theorem unframe_header_append {len : Nat} (hLen : len < 2 ^ 32) (rest : List UInt8) :
    unframe (toLeBytes len ++ rest) =
      if len ≤ rest.length then rest.take len :: unframe (rest.drop len) else [] := by
  simp only [toLeBytes, List.cons_append, List.nil_append]
  rw [unframe, fromLeBytes_toLeBytes hLen]

theorem unframe_toLeBytes_append (hp : Fits p) (rest : List UInt8) :
    unframe (toLeBytes p.length ++ rest) =
      if p.length ≤ rest.length then rest.take p.length :: unframe (rest.drop p.length)
      else [] :=
  unframe_header_append hp rest

theorem unframe_frame_append (hp : Fits p) (tail : List UInt8) :
    unframe (frame p ++ tail) = p :: unframe tail := by
  rw [frame, List.append_assoc, unframe_toLeBytes_append hp, if_pos (by simp), List.take_left,
    List.drop_left]

theorem unframe_frames_append (hps : ∀ p ∈ ps, Fits p) (tail : List UInt8) :
    unframe (frames ps ++ tail) = ps ++ unframe tail := by
  induction ps with
  | nil => rfl
  | cons p ps ih =>
      rw [frames_cons, List.append_assoc, unframe_frame_append (hps p (by simp)),
        ih fun q hq => hps q (by simp [hq]), List.cons_append]

/-- A record cut before its end: nothing is read. -/
def Torn (p tail : List UInt8) : Prop := tail <+: frame p ∧ tail.length < (frame p).length

theorem unframe_of_torn (hp : Fits p) (h : Torn p tail) : unframe tail = [] := by
  obtain ⟨hPrefix, hLt⟩ := h
  rcases Nat.lt_or_ge tail.length 4 with hShort | hLong
  · exact unframe_of_short hShort
  · have hHeader : toLeBytes p.length <+: tail :=
      List.prefix_of_prefix_length_le (List.prefix_append _ _) hPrefix hLong
    obtain ⟨rest, rfl⟩ := hHeader
    have hRest : ¬p.length ≤ rest.length := by
      simp only [frame, List.length_append, length_toLeBytes] at hLt
      omega
    rw [unframe_toLeBytes_append hp, if_neg hRest]

/-- Where a cut can fall: between two records, or inside one. -/
theorem exists_cut (h : image <+: frames ps) :
    ∃ k tail, image = frames (ps.take k) ++ tail ∧ (tail = [] ∨ ∃ p ∈ ps, Torn p tail) := by
  induction ps generalizing image with
  | nil => exact ⟨0, [], by simpa using h, Or.inl rfl⟩
  | cons p ps ih =>
      rw [frames_cons] at h
      by_cases hWhole : frame p <+: image
      · obtain ⟨rest, rfl⟩ := hWhole
        obtain ⟨k, tail, rfl, hTail⟩ := ih ((List.prefix_append_right_inj _).mp h)
        refine ⟨k + 1, tail, by simp, hTail.imp_right ?_⟩
        rintro ⟨q, hq, hTorn⟩
        exact ⟨q, List.mem_cons_of_mem _ hq, hTorn⟩
      · have hPart : image <+: frame p :=
          (List.prefix_or_prefix_of_prefix h (List.prefix_append _ _)).resolve_right hWhole
        refine ⟨0, image, rfl, Or.inr ⟨p, List.mem_cons_self, hPart, ?_⟩⟩
        refine Nat.lt_of_le_of_ne hPart.length_le fun hEq => hWhole ?_
        exact hPart.eq_of_length hEq ▸ List.prefix_rfl

/-- From any prefix of a stream of records, a prefix of the payloads is read. -/
theorem unframe_isPrefix (hps : ∀ p ∈ ps, Fits p) (h : image <+: frames ps) :
    unframe image <+: ps := by
  obtain ⟨k, tail, rfl, hTail⟩ := exists_cut h
  have hTake : ∀ q ∈ ps.take k, Fits q := fun q hq => hps q (List.mem_of_mem_take hq)
  have hNothing : unframe tail = [] := by
    rcases hTail with rfl | ⟨q, hq, hTorn⟩
    · exact unframe_of_short (by simp)
    · exact unframe_of_torn (hps q hq) hTorn
  rw [unframe_frames_append hTake, hNothing, List.append_nil]
  exact List.take_prefix _ _

theorem le_length_unframe (hps : ∀ p ∈ ps, Fits p) (h : frames ps <+: image) :
    ps.length ≤ (unframe image).length := by
  obtain ⟨tail, rfl⟩ := h
  rw [unframe_frames_append hps, List.length_append]
  omega

/-! ## Any bytes -/

theorem toLeBytes_fromLeBytes (b₀ b₁ b₂ b₃ : UInt8) :
    toLeBytes (fromLeBytes b₀ b₁ b₂ b₃) = [b₀, b₁, b₂, b₃] := by
  have h₀ := b₀.toNat_lt
  have h₁ := b₁.toNat_lt
  have h₂ := b₂.toNat_lt
  have h₃ := b₃.toNat_lt
  simp only [toLeBytes, fromLeBytes, List.cons.injEq, and_true, ← UInt8.toNat_inj,
    UInt8.toNat_ofNat']
  omega

theorem fromLeBytes_lt (b₀ b₁ b₂ b₃ : UInt8) : fromLeBytes b₀ b₁ b₂ b₃ < 2 ^ 32 := by
  have h₀ := b₀.toNat_lt
  have h₁ := b₁.toNat_lt
  have h₂ := b₂.toNat_lt
  have h₃ := b₃.toNat_lt
  simp only [fromLeBytes]
  omega

/-- No record is complete at the start: the header is cut, or announces more than is left. -/
def Incomplete (tail : List UInt8) : Prop :=
  tail.length < 4 ∨ ∃ len : Nat, ∃ rest, len < 2 ^ 32 ∧ tail = toLeBytes len ++ rest ∧
    rest.length < len

/-- `bytes` are the complete records `ps` and a tail that is none. -/
structure Splits (bytes : List UInt8) (ps : List (List UInt8)) (tail : List UInt8) : Prop where
  bytes_eq : bytes = frames ps ++ tail
  fits : ∀ p ∈ ps, Fits p
  incomplete : Incomplete tail

theorem Incomplete.unframe_eq (h : Incomplete tail) : unframe tail = [] := by
  rcases h with hShort | ⟨len, rest, hLen, rfl, hRest⟩
  · exact unframe_of_short hShort
  · rw [unframe_header_append hLen, if_neg (by omega)]

namespace Splits

variable {bytes : List UInt8}

theorem unframe_eq (h : Splits bytes ps tail) : unframe bytes = ps := by
  rw [h.bytes_eq, unframe_frames_append h.fits, h.incomplete.unframe_eq, List.append_nil]

theorem unique (h : Splits bytes ps tail) {ps' : List (List UInt8)} {tail' : List UInt8}
    (h' : Splits bytes ps' tail') : ps' = ps ∧ tail' = tail := by
  have hps : ps' = ps := h'.unframe_eq.symm.trans h.unframe_eq
  subst hps
  exact ⟨rfl, List.append_cancel_left (h'.bytes_eq.symm.trans h.bytes_eq)⟩

/-- Complete records in front only lengthen the list of records. -/
theorem frames_append (h : Splits bytes ps tail) {qs : List (List UInt8)}
    (hqs : ∀ q ∈ qs, Fits q) : Splits (frames qs ++ bytes) (qs ++ ps) tail where
  bytes_eq := by rw [h.bytes_eq, Foundations.frames_append, List.append_assoc]
  fits p hp := (List.mem_append.mp hp).elim (hqs p) (h.fits p)
  incomplete := h.incomplete

end Splits

theorem exists_splits (bytes : List UInt8) : ∃ ps tail, Splits bytes ps tail := by
  induction bytes using unframe.induct with
  | case1 b₀ b₁ b₂ b₃ rest hFits ih =>
      -- the first record is complete: split what follows it
      obtain ⟨ps, tail, hSplits⟩ := ih
      have hLen : (rest.take (fromLeBytes b₀ b₁ b₂ b₃)).length = fromLeBytes b₀ b₁ b₂ b₃ := by
        rw [List.length_take]
        omega
      have hFirst : ∀ p ∈ [rest.take (fromLeBytes b₀ b₁ b₂ b₃)], Fits p := by
        simpa [Fits, hLen] using fromLeBytes_lt b₀ b₁ b₂ b₃
      refine ⟨[rest.take (fromLeBytes b₀ b₁ b₂ b₃)] ++ ps, tail, ?_⟩
      have hWhole := hSplits.frames_append hFirst
      simpa [frame, hLen, toLeBytes_fromLeBytes, List.take_append_drop] using hWhole
  | case2 b₀ b₁ b₂ b₃ rest hShort =>
      refine ⟨[], _, rfl, by simp, Or.inr ⟨fromLeBytes b₀ b₁ b₂ b₃, rest, fromLeBytes_lt _ _ _ _,
        by rw [toLeBytes_fromLeBytes]; rfl, by omega⟩⟩
  | case3 bytes hHeader =>
      refine ⟨[], _, rfl, by simp, Or.inl ?_⟩
      rcases bytes with _ | ⟨b₀, _ | ⟨b₁, _ | ⟨b₂, _ | ⟨b₃, rest⟩⟩⟩⟩
      · simp
      · simp
      · simp
      · simp
      · exact absurd rfl (hHeader b₀ b₁ b₂ b₃ rest)

end OlivawHub.Foundations
