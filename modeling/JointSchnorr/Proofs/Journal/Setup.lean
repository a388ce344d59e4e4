import Mathlib
import JointSchnorr.Journal.Setup
import JointSchnorr.Proofs.Journal.Filter

/-!
# Setting up more than once

An attempt to set up the recording leaves the place of the logger taken however it ends, so that no
attempt behind the first can succeed (`setUpTimes_succ`). Records are made exactly if the first
finds both places free (`isRecording_setUpTimes_iff`). A line of the bridge is recorded under its
own target and only if the filter reaches warnings (`of_mem_bridgeRecords`).
-/

namespace JointSchnorr.Journal

variable {places : Places}

theorem logger_setUp (places : Places) : places.setUp.1.logger = true := by
  unfold Places.setUp
  split
  · next h => exact h
  · split <;> rfl

theorem setUp_eq_ok_iff : places.setUp.2 = .ok () ↔ places = ⟨false, false⟩ := by
  obtain ⟨logger, subscriber⟩ := places
  cases logger <;> cases subscriber <;> simp [Places.setUp]

theorem setUpTimes_eq_cons (places : Places) (n : Nat) :
    places.setUpTimes (n + 1) = places.setUp.2 :: places.setUp.1.setUpTimes n := rfl

/-- Once the place of the logger is taken, every attempt fails there. -/
theorem setUpTimes_of_logger (h : places.logger = true) (n : Nat) :
    places.setUpTimes n = List.replicate n (.error .logger) := by
  induction n with
  | zero => rfl
  | succ n ih =>
    have htaken : places.setUp = (places, .error .logger) := if_pos h
    rw [setUpTimes_eq_cons, htaken, ih]
    rfl

/-- **One attempt counts.** All attempts but the first fail, at the place of the logger. -/
theorem setUpTimes_succ (places : Places) (n : Nat) :
    places.setUpTimes (n + 1) = places.setUp.2 :: List.replicate n (.error .logger) := by
  rw [setUpTimes_eq_cons, setUpTimes_of_logger (logger_setUp places)]

theorem isRecording_setUpTimes_iff {n : Nat} :
    isRecording (places.setUpTimes n) = true ↔ 0 < n ∧ places = ⟨false, false⟩ := by
  cases n with
  | zero => simp [Places.setUpTimes, isRecording]
  | succ n =>
    have hrest : isRecording (List.replicate n (.error .logger)) = false := by
      rw [isRecording, List.any_eq_false]
      intro attempt hattempt
      rw [List.eq_of_mem_replicate hattempt]
      exact Bool.false_ne_true
    rw [setUpTimes_succ, ← setUp_eq_ok_iff]
    show (_ || isRecording _) = true ↔ _
    rw [hrest, Bool.or_false]
    cases places.setUp.2 <;> simp

/-- A plain log line is recorded as it is, and only where the filter reaches warnings. -/
theorem of_mem_bridgeRecords {logger target text : String} {f : Filter} {r : Record}
    (h : r ∈ bridgeRecords logger f target text) :
    r = ⟨logger, .warn, "log", text, [("log.target", .text target)]⟩ ∧ f.reaches .warn = true := by
  simp only [bridgeRecords] at h
  split at h
  · next hpasses => exact ⟨List.mem_singleton.1 h, Filter.reaches_of_passesEvent hpasses⟩
  · cases h

end JointSchnorr.Journal
