import Mathlib

/-! Append-only logs of framed records. A scan reads frames until the log ends,
until what is left is too short to be a frame, or until it is no frame at all.
Everything known about a scan follows from the two laws of the frame format. -/
namespace FramedLog

variable {σ ε β : Type}

structure ScanResult (β : Type) where
  batches : List β
  lastValidOffset : ℕ
  truncatedTail : Bool
deriving DecidableEq

/-- A frame decoder at the head of a log. `short` marks the errors that say that
the frame is not all there. -/
structure Format (σ ε β : Type) where
  decode : List σ → Except ε (β × ℕ)
  short : ε → Bool
  relocate : ℕ → ε → ε
  progress : ∀ bytes batch consumed, decode bytes = .ok (batch, consumed) → 0 < consumed

def Format.scanFrom (F : Format σ ε β) (bytes : List σ) (batches : List β) (offset : ℕ) :
    Except ε (ScanResult β) :=
  if offset < bytes.length then
    match _hd : F.decode (bytes.drop offset) with
    | .error failure =>
      if F.short failure then .ok ⟨batches, offset, true⟩
      else .error (F.relocate offset failure)
    | .ok (batch, consumed) => F.scanFrom bytes (batches ++ [batch]) (offset + consumed)
  else .ok ⟨batches, offset, false⟩
termination_by bytes.length - offset
decreasing_by
  have hpos := F.progress _ _ _ _hd
  omega

def Format.scan (F : Format σ ε β) (bytes : List σ) : Except ε (ScanResult β) :=
  F.scanFrom bytes [] 0

section Steps

variable {F : Format σ ε β} {bytes : List σ} {batches : List β} {offset : ℕ}

theorem scanFrom_end (h : ¬offset < bytes.length) :
    F.scanFrom bytes batches offset = .ok ⟨batches, offset, false⟩ := by
  rw [Format.scanFrom, if_neg h]

theorem scanFrom_frame {batch : β} {consumed : ℕ} (h : offset < bytes.length)
    (hd : F.decode (bytes.drop offset) = .ok (batch, consumed)) :
    F.scanFrom bytes batches offset =
      F.scanFrom bytes (batches ++ [batch]) (offset + consumed) := by
  rw [Format.scanFrom, if_pos h]
  split
  · rename_i failure hd'
    rw [hd] at hd'
    contradiction
  · rename_i batch' consumed' hd'
    rw [hd] at hd'
    simp only [Except.ok.injEq, Prod.mk.injEq] at hd'
    rw [hd'.1, hd'.2]

theorem scanFrom_error {failure : ε} (h : offset < bytes.length)
    (hd : F.decode (bytes.drop offset) = .error failure) :
    F.scanFrom bytes batches offset =
      if F.short failure then .ok ⟨batches, offset, true⟩
      else .error (F.relocate offset failure) := by
  rw [Format.scanFrom, if_pos h]
  split
  · rename_i failure' hd'
    rw [hd] at hd'
    obtain rfl := Except.error.inj hd'
    rfl
  · rename_i batch consumed hd'
    rw [hd] at hd'
    contradiction

end Steps

/-- The laws that tie a decoder to the frames that are written. A frame is read
back whatever follows it, nothing else is read, and a frame cut short is seen
to be short. -/
structure Format.Lawful (F : Format σ ε β) (Encodes : β → List σ → Prop) : Prop where
  decode_iff : ∀ bytes batch consumed, F.decode bytes = .ok (batch, consumed) ↔
    ∃ frame rest, Encodes batch frame ∧ bytes = frame ++ rest ∧ consumed = frame.length
  cut_short : ∀ batch frame k, Encodes batch frame → k < frame.length →
    ∃ failure, F.decode (frame.take k) = .error failure ∧ F.short failure = true

section Scans

variable {F : Format σ ε β} {Encodes : β → List σ → Prop}

theorem Format.Lawful.frame_pos (hF : F.Lawful Encodes) {batch : β} {frame : List σ}
    (h : Encodes batch frame) : 0 < frame.length :=
  F.progress _ _ _ ((hF.decode_iff frame batch frame.length).mpr ⟨frame, [], h, by simp, rfl⟩)

/-- A scan passes over whole frames. -/
theorem Format.Lawful.scanFrom_whole (hF : F.Lawful Encodes) {cs : List β} {fs : List (List σ)}
    (h : List.Forall₂ Encodes cs fs) (front rest : List σ) (batches : List β) :
    F.scanFrom (front ++ (fs.flatten ++ rest)) batches front.length =
      F.scanFrom (front ++ (fs.flatten ++ rest)) (batches ++ cs)
        (front.length + fs.flatten.length) := by
  induction h generalizing front batches with
  | nil => simp
  | @cons c f cs fs hcf _ ih =>
    have hpos := hF.frame_pos hcf
    have hlt : front.length < (front ++ ((f :: fs).flatten ++ rest)).length := by
      simp only [List.length_append, List.flatten_cons]
      omega
    have hd : F.decode ((front ++ ((f :: fs).flatten ++ rest)).drop front.length) =
        .ok (c, f.length) := by
      apply (hF.decode_iff _ _ _).mpr
      exact ⟨f, fs.flatten ++ rest, hcf, by simp, rfl⟩
    rw [scanFrom_frame hlt hd]
    -- The frame just read joins the part of the log that lies behind.
    have hh := ih (front ++ f) (batches ++ [c])
    simp only [List.append_assoc, List.length_append, List.cons_append, List.nil_append] at hh
    simp only [List.flatten_cons, List.append_assoc, List.length_append]
    rw [hh, Nat.add_assoc]

theorem Format.Lawful.scan_whole (hF : F.Lawful Encodes) {cs : List β} {fs : List (List σ)}
    (h : List.Forall₂ Encodes cs fs) (rest : List σ) :
    F.scan (fs.flatten ++ rest) = F.scanFrom (fs.flatten ++ rest) cs fs.flatten.length := by
  have hh := hF.scanFrom_whole h [] rest []
  simpa [Format.scan] using hh

/-- A log of whole frames is read in full. -/
theorem Format.Lawful.scan_frames (hF : F.Lawful Encodes) {cs : List β} {fs : List (List σ)}
    (h : List.Forall₂ Encodes cs fs) :
    F.scan fs.flatten = .ok ⟨cs, fs.flatten.length, false⟩ := by
  have hh := hF.scan_whole h []
  rw [List.append_nil] at hh
  rw [hh, scanFrom_end (lt_irrefl _)]

/-- What stands behind the whole frames decides how the scan ends. -/
theorem Format.Lawful.scan_stuck (hF : F.Lawful Encodes) {cs : List β} {fs : List (List σ)}
    (h : List.Forall₂ Encodes cs fs) {rest : List σ} {failure : ε} (hne : rest ≠ [])
    (hd : F.decode rest = .error failure) :
    F.scan (fs.flatten ++ rest) =
      if F.short failure then .ok ⟨cs, fs.flatten.length, true⟩
      else .error (F.relocate fs.flatten.length failure) := by
  have hpos := List.length_pos_of_ne_nil hne
  have hlt : fs.flatten.length < (fs.flatten ++ rest).length := by
    rw [List.length_append]
    omega
  have hdrop : F.decode ((fs.flatten ++ rest).drop fs.flatten.length) = .error failure := by
    rw [List.drop_left, hd]
  rw [hF.scan_whole h, scanFrom_error hlt hdrop]

/-- Whole frames are read past the part of a frame that was cut short. -/
theorem Format.Lawful.scan_torn (hF : F.Lawful Encodes) {cs : List β} {fs : List (List σ)}
    (h : List.Forall₂ Encodes cs fs) {c : β} {f : List σ} (hcf : Encodes c f) {k : ℕ}
    (hk : k < f.length) :
    F.scan (fs.flatten ++ f.take k) = .ok ⟨cs, fs.flatten.length, decide (k ≠ 0)⟩ := by
  by_cases hzero : k = 0
  · subst hzero
    rw [List.take_zero, List.append_nil, hF.scan_frames h]
    rfl
  · obtain ⟨failure, hd, hshort⟩ := hF.cut_short c f k hcf hk
    have hne : f.take k ≠ [] := by
      intro hnil
      have hlen := congrArg List.length hnil
      simp only [List.length_take, List.length_nil] at hlen
      omega
    rw [hF.scan_stuck h hne hd, if_pos hshort, decide_eq_true hzero]

/-- Every log is a run of whole frames, then nothing or no whole frame. -/
theorem Format.Lawful.exists_frames (hF : F.Lawful Encodes) (bytes : List σ) :
    ∃ (cs : List β) (fs : List (List σ)) (rest : List σ), List.Forall₂ Encodes cs fs ∧
      bytes = fs.flatten ++ rest ∧ (rest = [] ∨ ∃ failure, F.decode rest = .error failure) := by
  induction hn : bytes.length using Nat.strong_induction_on generalizing bytes with
  | _ n ih =>
    rcases hd : F.decode bytes with failure | ⟨batch, consumed⟩
    · exact ⟨[], [], bytes, .nil, by simp, Or.inr ⟨failure, hd⟩⟩
    · obtain ⟨frame, rest, hcf, rfl, _⟩ := (hF.decode_iff _ _ _).mp hd
      have hpos := hF.frame_pos hcf
      have hlt : rest.length < n := by
        rw [← hn, List.length_append]
        omega
      -- What follows a frame is shorter, so it splits already.
      obtain ⟨cs, fs, tail, hfs, rfl, htail⟩ := ih rest.length hlt rest rfl
      exact ⟨batch :: cs, frame :: fs, tail, .cons hcf hfs, by simp, htail⟩

/-- A scan that succeeds has read exactly the frames before its last valid
offset, and what it left is nothing or a short frame. -/
theorem Format.Lawful.scan_ok (hF : F.Lawful Encodes) {bytes : List σ} {result : ScanResult β}
    (h : F.scan bytes = .ok result) :
    ∃ (fs : List (List σ)) (rest : List σ), List.Forall₂ Encodes result.batches fs ∧
      bytes = fs.flatten ++ rest ∧ result.lastValidOffset = fs.flatten.length ∧
      (result.truncatedTail = false ∧ rest = [] ∨
        result.truncatedTail = true ∧ rest ≠ [] ∧
          ∃ failure, F.decode rest = .error failure ∧ F.short failure = true) := by
  obtain ⟨cs, fs, rest, hfs, rfl, hrest⟩ := hF.exists_frames bytes
  by_cases hne : rest = []
  · subst hne
    rw [List.append_nil, hF.scan_frames hfs] at h
    obtain rfl := Except.ok.inj h
    exact ⟨fs, [], hfs, rfl, rfl, Or.inl ⟨rfl, rfl⟩⟩
  · obtain ⟨failure, hd⟩ := hrest.resolve_left hne
    rw [hF.scan_stuck hfs hne hd] at h
    split_ifs at h with hshort
    obtain rfl := Except.ok.inj h
    exact ⟨fs, rest, hfs, rfl, rfl, Or.inr ⟨rfl, hne, failure, hd, hshort⟩⟩

end Scans

section Cuts

def frameEnd (fs : List (List σ)) (i : ℕ) : ℕ := (fs.take i).flatten.length

def wholeFrames : List (List σ) → ℕ → ℕ
  | [], _ => 0
  | f :: fs, k => if f.length ≤ k then wholeFrames fs (k - f.length) + 1 else 0

theorem frameEnd_succ (f : List σ) (fs : List (List σ)) (i : ℕ) :
    frameEnd (f :: fs) (i + 1) = f.length + frameEnd fs i := by
  simp only [frameEnd, List.take_succ_cons, List.flatten_cons, List.length_append]

theorem wholeFrames_le_length (fs : List (List σ)) (k : ℕ) : wholeFrames fs k ≤ fs.length := by
  induction fs generalizing k with
  | nil => simp [wholeFrames]
  | cons f fs ih =>
    have hh := ih (k - f.length)
    unfold wholeFrames
    split_ifs
    · simpa using hh
    · exact Nat.zero_le _

/-- The whole frames are those that end by `k`. -/
theorem frameEnd_le_iff (fs : List (List σ)) (k i : ℕ) (hi : i ≤ fs.length) :
    frameEnd fs i ≤ k ↔ i ≤ wholeFrames fs k := by
  induction fs generalizing k i with
  | nil =>
    obtain rfl : i = 0 := by simpa using hi
    simp [frameEnd, wholeFrames]
  | cons f fs ih =>
    cases i with
    | zero => simp [frameEnd]
    | succ i =>
      have hh := ih (k - f.length) i (by simpa using hi)
      rw [frameEnd_succ]
      unfold wholeFrames
      split_ifs with hf
      · omega
      · omega

/-- A cut is at the end of the last whole frame or of no frame. -/
theorem frameEnd_ne_iff (fs : List (List σ)) (k : ℕ) : frameEnd fs (wholeFrames fs k) ≠ k ↔
    ∀ i ≤ fs.length, frameEnd fs i ≠ k := by
  have hm := wholeFrames_le_length fs k
  constructor
  · intro hcut i hi hik
    have hle := (frameEnd_le_iff fs k i hi).mp hik.le
    have hend := (frameEnd_le_iff fs k _ hm).mpr le_rfl
    -- The frame that would end at the cut ends no later than the last whole one.
    have hmono : frameEnd fs i ≤ frameEnd fs (wholeFrames fs k) :=
      (frameEnd_le_iff fs _ i hi).mpr (hle.trans ((frameEnd_le_iff fs _ _ hm).mp le_rfl))
    omega
  · intro hall
    exact hall _ hm

/-- A cut leaves the whole frames, then a proper part of the next frame. -/
theorem take_flatten_eq (fs : List (List σ)) (k : ℕ) (hk : k ≤ fs.flatten.length) :
    fs.flatten.take k = (fs.take (wholeFrames fs k)).flatten ∧ frameEnd fs (wholeFrames fs k) = k ∨
      ∃ (f : List σ) (j : ℕ), fs[wholeFrames fs k]? = some f ∧ 0 < j ∧ j < f.length ∧
        fs.flatten.take k = (fs.take (wholeFrames fs k)).flatten ++ f.take j ∧
        k = frameEnd fs (wholeFrames fs k) + j := by
  induction fs generalizing k with
  | nil =>
    obtain rfl : k = 0 := by simpa using hk
    simp [wholeFrames, frameEnd]
  | cons f fs ih =>
    rw [List.flatten_cons, List.length_append] at hk
    unfold wholeFrames
    split_ifs with hf
    · have htake : (f :: fs).flatten.take k = f ++ fs.flatten.take (k - f.length) := by
        rw [List.flatten_cons, List.take_append, List.take_of_length_le hf]
      simp only [frameEnd_succ, List.take_succ_cons, List.flatten_cons,
        List.getElem?_cons_succ, List.append_assoc]
      rw [← List.flatten_cons, htake]
      rcases ih (k - f.length) (by omega) with ⟨ht, he⟩ | ⟨g, j, hg, hj, hjg, ht, he⟩
      · exact Or.inl ⟨by rw [ht], by omega⟩
      · exact Or.inr ⟨g, j, hg, hj, hjg, by rw [ht], by omega⟩
    · by_cases hzero : k = 0
      · subst hzero
        simp [frameEnd]
      · refine Or.inr ⟨f, k, rfl, by omega, by omega, ?_, ?_⟩
        · rw [List.flatten_cons, List.take_append_of_le_length (by omega)]
          simp
        · simp [frameEnd]

variable {F : Format σ ε β} {Encodes : β → List σ → Prop}

/-- A written log cut anywhere is read back to the last whole frame, and the cut
is reported just when it is not at the end of a frame. -/
theorem Format.Lawful.scan_take (hF : F.Lawful Encodes) {cs : List β} {fs : List (List σ)}
    (h : List.Forall₂ Encodes cs fs) {k : ℕ} (hk : k ≤ fs.flatten.length) :
    F.scan (fs.flatten.take k) = .ok ⟨cs.take (wholeFrames fs k),
      frameEnd fs (wholeFrames fs k), decide (frameEnd fs (wholeFrames fs k) ≠ k)⟩ := by
  have hwhole := List.forall₂_take (wholeFrames fs k) h
  rcases take_flatten_eq fs k hk with ⟨ht, he⟩ | ⟨f, j, hf, hj, hjf, ht, he⟩
  · have hscan := hF.scan_frames hwhole
    rw [ht, hscan, decide_eq_false (not_not.mpr he)]
    rfl
  · -- The frame that is cut was written, so its decoder finds it short.
    have hi : wholeFrames fs k < fs.length := by
      by_contra hn
      rw [List.getElem?_eq_none (by omega)] at hf
      contradiction
    have hic : wholeFrames fs k < cs.length := by rw [h.length_eq]; exact hi
    have hcf : Encodes (cs.get ⟨_, hic⟩) f := by
      have hget := (List.forall₂_iff_get.mp h).2 (wholeFrames fs k) hic hi
      rw [List.getElem?_eq_getElem hi] at hf
      rw [← Option.some.inj hf]
      exact hget
    have hscan := hF.scan_torn hwhole hcf hjf
    have hcut : frameEnd fs (wholeFrames fs k) ≠ k := by omega
    rw [ht, hscan, decide_eq_true hcut, decide_eq_true (by omega)]
    rfl

end Cuts

end FramedLog
