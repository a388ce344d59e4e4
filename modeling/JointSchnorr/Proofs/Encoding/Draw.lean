import Mathlib
import JointSchnorr.Secret
import JointSchnorr.Proofs.Encoding.Scalar

/-!
# Secrets from a random source

A script of random bytes is drawn from in blocks of 64 bytes, one in each turn of a loop. A block
that is a multiple of `N` is used up without ending the loop (`turn_eq_inl_iff`). So the first
complete block whose value is no multiple of `N` decides: the drawn secret is that value modulo `N`,
and the script is used up to the end of that block (`draw_of_isLeast`). Where there is no such
block, the loop fails in the turn behind the last complete one (`draw_of_forall_not`).
-/

namespace JointSchnorr

/-- The block at position `j` of a script. -/
def scriptBlock (script : Bytes) (j : Nat) : Bytes := (script.drop (64 * j)).take 64

/-- The block at position `j` is complete, and its value is no multiple of `N`. -/
structure YieldsAt (script : Bytes) (j : Nat) : Prop where
  complete : 64 * (j + 1) ≤ script.length
  not_dvd : ¬ N ∣ (scriptBlock script j).value

theorem scriptBlock_succ (script : Bytes) (j : Nat) :
    scriptBlock script (j + 1) = scriptBlock (script.drop 64) j := by
  rw [scriptBlock, scriptBlock, List.drop_drop, Nat.mul_succ, Nat.add_comm]

theorem yieldsAt_drop_iff {script : Bytes} {j : Nat} :
    YieldsAt (script.drop 64) j ↔ YieldsAt script (j + 1) := by
  have hcomplete : 64 * (j + 1) ≤ (script.drop 64).length ↔ 64 * (j + 1 + 1) ≤ script.length := by
    rw [List.length_drop]
    omega
  constructor
  · rintro ⟨hc, hv⟩
    exact ⟨hcomplete.1 hc, by rwa [scriptBlock_succ]⟩
  · rintro ⟨hc, hv⟩
    exact ⟨hcomplete.2 hc, by rwa [← scriptBlock_succ]⟩

/-- Behind a block that yields nothing the search goes on in the rest of the script. -/
theorem isLeast_yieldsAt_drop {script : Bytes} {j : Nat}
    (h : IsLeast {i | YieldsAt script i} (j + 1)) :
    IsLeast {i | YieldsAt (script.drop 64) i} j := by
  refine ⟨yieldsAt_drop_iff.2 h.1, fun i hi => ?_⟩
  exact Nat.le_of_succ_le_succ (h.2 (yieldsAt_drop_iff.1 hi))

/-- One block that yields a secret is the first of them or has the first before it. -/
theorem exists_isLeast_of_yieldsAt {script : Bytes} {j : Nat} (h : YieldsAt script j) :
    ∃ i, IsLeast {i | YieldsAt script i} i :=
  ⟨sInf {i | YieldsAt script i}, Nat.sInf_mem ⟨j, h⟩, fun _ hi => Nat.sInf_le hi⟩

namespace Secret

/-! ## The loop, turn by turn -/

/-- One turn of the loop: the script that the next turn goes on with, or the answer of the loop. -/
def turn (script : Bytes) : Bytes ⊕ Except Error (Secret × Bytes) :=
  if 64 ≤ script.length then
    let k := Scalar.ofBytes (script.take 64)
    if h : k = 0 then .inl (script.drop 64) else .inr (.ok (⟨k, h⟩, script.drop 64))
  else .inr (.error .randomness)

/-- The loop that begins with a script ends in its `n`-th turn with this answer. -/
inductive EndsAt : Bytes → Nat → Except Error (Secret × Bytes) → Prop where
  | last {script answer} : turn script = .inr answer → EndsAt script 1 answer
  | again {script rest n answer} :
    turn script = .inl rest → EndsAt rest n answer → EndsAt script (n + 1) answer

theorem turn_eq_inl_iff {script rest : Bytes} :
    turn script = .inl rest ↔
      64 ≤ script.length ∧ N ∣ Bytes.value (script.take 64) ∧ rest = script.drop 64 := by
  rw [← Scalar.ofBytes_eq_zero_iff]
  unfold turn
  split
  · next hl =>
    by_cases hk : Scalar.ofBytes (script.take 64) = 0
    · simp [hk, hl, eq_comm]
    · simp [hk]
  · next hl => simp [hl]

theorem turn_eq_ok_iff {script rest : Bytes} {k : Secret} :
    turn script = .inr (.ok (k, rest)) ↔
      64 ≤ script.length ∧ k.scalar = Scalar.ofBytes (script.take 64) ∧ rest = script.drop 64 := by
  obtain ⟨k, hne⟩ := k
  unfold turn
  split
  · next hl =>
    by_cases hk : Scalar.ofBytes (script.take 64) = 0
    · have hne' : k ≠ Scalar.ofBytes (script.take 64) := fun h => hne (h.trans hk)
      simp [hk, hne]
    · simp [hk, hl, eq_comm]
  · next hl => simp [hl]

theorem turn_eq_error_iff {script : Bytes} {e : Error} :
    turn script = .inr (.error e) ↔ script.length < 64 ∧ e = .randomness := by
  unfold turn
  split
  · next hl =>
    by_cases hk : Scalar.ofBytes (script.take 64) = 0
    · simp [hk, hl]
    · simp [hk, hl]
  · next hl => simp [Nat.lt_of_not_le hl, eq_comm]

theorem draw_eq_turn (script : Bytes) :
    draw script = match turn script with
      | .inl rest => draw rest
      | .inr answer => answer := by
  rw [draw, turn]
  split
  · by_cases hk : Scalar.ofBytes (script.take 64) = 0
    · simp [hk]
    · simp [hk]
  · rfl

theorem EndsAt.draw_eq {script : Bytes} {n : Nat} {answer : Except Error (Secret × Bytes)}
    (h : EndsAt script n answer) : draw script = answer := by
  induction h with
  | last hturn => rw [draw_eq_turn, hturn]
  | again hturn _ ih => rw [draw_eq_turn, hturn]; exact ih

/-- Every turn up to the one that yields a secret takes 64 bytes. -/
theorem EndsAt.length_eq {script rest : Bytes} {n : Nat} {k : Secret}
    (h : EndsAt script n (.ok (k, rest))) : script.length = 64 * n + rest.length := by
  generalize hanswer : Except.ok (k, rest) = answer at h
  induction h with
  | last hturn =>
    subst hanswer
    obtain ⟨hl, -, rfl⟩ := turn_eq_ok_iff.1 hturn
    rw [List.length_drop]
    omega
  | again hturn _ ih =>
    obtain ⟨hl, -, rfl⟩ := turn_eq_inl_iff.1 hturn
    have hrest := ih hanswer
    rw [List.length_drop] at hrest
    omega

/-- A loop that fails has taken all complete blocks. -/
theorem EndsAt.length_div_eq {script : Bytes} {n : Nat} {e : Error}
    (h : EndsAt script n (.error e)) : script.length / 64 + 1 = n := by
  generalize hanswer : Except.error e = answer at h
  induction h with
  | last hturn =>
    subst hanswer
    obtain ⟨hl, -⟩ := turn_eq_error_iff.1 hturn
    omega
  | again hturn _ ih =>
    obtain ⟨hl, -, rfl⟩ := turn_eq_inl_iff.1 hturn
    have hrest := ih hanswer
    rw [List.length_drop] at hrest
    omega

/-! ## What the loop answers -/

/-- The loop turns past the blocks before the first that yields a secret, and ends with that one. -/
theorem endsAt_of_isLeast {script : Bytes} {j : Nat} (h : IsLeast {i | YieldsAt script i} j) :
    ∃ k : Secret, k.scalar = Scalar.ofBytes (scriptBlock script j) ∧
      EndsAt script (j + 1) (.ok (k, script.drop (64 * (j + 1)))) := by
  induction j generalizing script with
  | zero =>
    have hne : Scalar.ofBytes (script.take 64) ≠ 0 :=
      Scalar.ofBytes_eq_zero_iff.not.2 h.1.not_dvd
    exact ⟨⟨Scalar.ofBytes (script.take 64), hne⟩, rfl,
      .last (turn_eq_ok_iff.2 ⟨h.1.complete, rfl, rfl⟩)⟩
  | succ j ih =>
    obtain ⟨k, hk, hends⟩ := ih (isLeast_yieldsAt_drop h)
    have hfirst : 64 ≤ script.length := by
      have := h.1.complete
      omega
    -- the first block is complete, so only its value can be why it is passed over
    have hdvd : N ∣ Bytes.value (script.take 64) := by
      by_contra hv
      exact absurd (h.2 (show YieldsAt script 0 from ⟨hfirst, hv⟩)) (Nat.not_succ_le_zero j)
    rw [List.drop_drop, Nat.add_comm 64, ← Nat.mul_succ] at hends
    exact ⟨k, by rw [hk, scriptBlock_succ], .again (turn_eq_inl_iff.2 ⟨hfirst, hdvd, rfl⟩) hends⟩

/-- Where no block yields a secret, the loop turns past all that are complete and fails behind. -/
theorem endsAt_of_forall_not {script : Bytes} (h : ∀ i, ¬ YieldsAt script i) :
    EndsAt script (script.length / 64 + 1) (.error .randomness) := by
  generalize hn : script.length / 64 = n
  induction n generalizing script with
  | zero => exact .last (turn_eq_error_iff.2 ⟨by omega, rfl⟩)
  | succ n ih =>
    have hfirst : 64 ≤ script.length := by omega
    have hdvd : N ∣ Bytes.value (script.take 64) := by
      by_contra hv
      exact h 0 ⟨hfirst, hv⟩
    have hrest : (script.drop 64).length / 64 = n := by
      rw [List.length_drop]
      omega
    refine .again (turn_eq_inl_iff.2 ⟨hfirst, hdvd, rfl⟩) (ih ?_ hrest)
    intro i hi
    exact h (i + 1) (yieldsAt_drop_iff.1 hi)

theorem draw_of_isLeast {script : Bytes} {j : Nat} (h : IsLeast {i | YieldsAt script i} j) :
    ∃ k : Secret, k.scalar = Scalar.ofBytes (scriptBlock script j) ∧
      draw script = .ok (k, script.drop (64 * (j + 1))) := by
  obtain ⟨k, hk, hends⟩ := endsAt_of_isLeast h
  exact ⟨k, hk, hends.draw_eq⟩

theorem draw_of_forall_not {script : Bytes} (h : ∀ i, ¬ YieldsAt script i) :
    draw script = .error .randomness := (endsAt_of_forall_not h).draw_eq

/-- A script with a block that yields a secret is drawn from with success. -/
theorem exists_draw_of_yieldsAt {script : Bytes} {j : Nat} (h : YieldsAt script j) :
    ∃ k rest, draw script = .ok (k, rest) := by
  obtain ⟨i, hi⟩ := exists_isLeast_of_yieldsAt h
  obtain ⟨k, -, hd⟩ := draw_of_isLeast hi
  exact ⟨k, _, hd⟩

theorem eq_randomness_of_draw {script : Bytes} {e : Error} (h : draw script = .error e) :
    e = .randomness := by
  by_cases hyields : ∃ j, YieldsAt script j
  · obtain ⟨j, hj⟩ := hyields
    obtain ⟨k, rest, hd⟩ := exists_draw_of_yieldsAt hj
    rw [hd] at h
    cases h
  · rw [draw_of_forall_not (not_exists.1 hyields)] at h
    exact (Except.error.inj h).symm

end Secret

theorem Nonce.eq_randomness_of_generate {script : Bytes} {e : Error}
    (h : generate script = .error e) : e = .randomness := by
  unfold generate at h
  cases hd : Secret.draw script with
  | error e' =>
    rw [hd] at h
    obtain rfl := Except.error.inj h
    exact Secret.eq_randomness_of_draw hd
  | ok drawn =>
    rw [hd] at h
    exact absurd h (by simp [Except.map])

end JointSchnorr
