import Mathlib
import JointSchnorr.Signatory
import JointSchnorr.Signing
import JointSchnorr.Proofs.Encoding.Draw
import JointSchnorr.Proofs.Encoding.Key

/-!
# Drawing keys, nonces and signatures

Whatever a script of random bytes holds, drawing from it comes to an end (`exists_endsAt_draw`). All
that is drawn is made from a secret that is drawn the same way, and also is what comes from reading
the 32 bytes of that secret (`Samples`): this holds of drawing secrets themselves (`samples_draw`)
and is kept by whatever makes a value from what is drawn (`Samples.map`).
-/

namespace JointSchnorr

/-- A value is drawn by `run` from a script, by `read` it is read from 32 bytes, and either way it
is what `make` makes of a secret. The first complete block of 64 bytes that is no multiple of `N`
yields the secret and is the last one used; a script without such a block yields nothing. -/
structure Samples {α : Type} (run : Bytes → Except Error (α × Bytes))
    (read : Bytes → Except Error α) (make : Secret → α) : Prop where
  of_isLeast : ∀ script j, IsLeast {i | YieldsAt script i} j → ∃ (k : Secret) (rest : Bytes),
    k.scalar.val = (scriptBlock script j).value % N ∧
    run script = .ok (make k, rest) ∧
    rest = script.drop (64 * (j + 1)) ∧ script.length - rest.length = 64 * (j + 1) ∧
    read (Octets.ofNat 32 ((scriptBlock script j).value % N)).toList = .ok (make k)
  of_none : ∀ script, (∀ i, ¬ YieldsAt script i) → run script = .error .randomness

namespace Secret

theorem samples_draw (what : Encoded) (zero : Error) : Samples draw (decode what zero) id where
  of_isLeast script j h := by
    obtain ⟨k, hk, hd⟩ := draw_of_isLeast h
    have hval : k.scalar.val = (scriptBlock script j).value % N := by
      rw [hk]
      rfl
    have hused : 64 * (j + 1) ≤ script.length := h.1.complete
    refine ⟨k, _, hval, hd, rfl, ?_, ?_⟩
    · rw [List.length_drop]
      omega
    · rw [← hval]
      exact decode_encode what zero k
  of_none script h := draw_of_forall_not h

/-- The loop ends on every script: with its first block that yields a secret, and otherwise in the
turn behind the last complete block. -/
theorem exists_endsAt_draw (script : Bytes) :
    ∃ n, EndsAt script n (draw script) ∧ n ≤ script.length / 64 + 1 ∧
      (∀ j, IsLeast {i | YieldsAt script i} j → n = j + 1) ∧
      ((∀ i, ¬ YieldsAt script i) → n = script.length / 64 + 1) := by
  by_cases hyields : ∃ j, YieldsAt script j
  · obtain ⟨i, hi⟩ := hyields
    obtain ⟨j, hj⟩ := exists_isLeast_of_yieldsAt hi
    obtain ⟨k, -, hends⟩ := endsAt_of_isLeast hj
    have hused := hj.1.complete
    refine ⟨j + 1, by rwa [hends.draw_eq], by omega, ?_, fun hnone => absurd hi (hnone i)⟩
    intro j' hj'
    rw [hj.unique hj']
  · have hnone := not_exists.1 hyields
    have hends := endsAt_of_forall_not hnone
    exact ⟨_, by rwa [hends.draw_eq], le_rfl, fun j hj => absurd hj.1 (hnone j), fun _ => rfl⟩

end Secret

/-- A value that is made from what is drawn is drawn as well. -/
theorem Samples.map {α β : Type} {run : Bytes → Except Error (α × Bytes)}
    {read : Bytes → Except Error α} {make : Secret → α} (h : Samples run read make) (f : α → β) :
    Samples (fun script => (run script).map fun (a, rest) => (f a, rest))
      (fun b => (read b).map f) (fun k => f (make k)) where
  of_isLeast script j hj := by
    obtain ⟨k, rest, hval, hrun, hrest, hused, hread⟩ := h.of_isLeast script j hj
    refine ⟨k, rest, hval, ?_, hrest, hused, ?_⟩
    · rw [hrun]
      rfl
    · rw [hread]
      rfl
  of_none script hnone := by
    rw [h.of_none script hnone]
    rfl

theorem PrivateKey.samples_generate : Samples generate decode PrivateKey.mk :=
  (Secret.samples_draw .privateKey .invalidKey).map PrivateKey.mk

theorem Nonce.samples_generate : Samples generate decode Nonce.mk :=
  (Secret.samples_draw .secretNonce .invalidNonce).map Nonce.mk

/-- **Rejection sampling.** On every script the drawing loop ends, in a turn that the length of the
script bounds and its blocks tell. The first complete block that is no multiple of `N` gives its
residue to a key, to a nonce, to the nonce of a signature, to the key of a new signatory and to a
signatory's nonce alike, as reading the bytes of the residue would, and nothing behind it is used.
Where there is no such block all five fail for want of randomness. -/
theorem rejection_sampling :
    (∀ script, ∃ n, Secret.EndsAt script n (Secret.draw script) ∧ n ≤ script.length / 64 + 1 ∧
      (∀ j, IsLeast {i | YieldsAt script i} j → n = j + 1) ∧
      ((∀ i, ¬ YieldsAt script i) → n = script.length / 64 + 1)) ∧
    Samples PrivateKey.generate PrivateKey.decode PrivateKey.mk ∧
    Samples Nonce.generate Nonce.decode Nonce.mk ∧
    (∀ (x : PrivateKey) (m : Bytes),
      Samples (x.sign m) (fun b => x.signFromScalar b m) fun k => x.signWith ⟨k⟩ m) ∧
    (∀ m : Bytes, Samples (Signatory.generate m)
      (fun b => (PrivateKey.decode b).map fun x => ⟨x, m⟩) fun k => ⟨⟨k⟩, m⟩) ∧
    ∀ (p : Signatory.AwaitingKey) (X : PublicKey), Samples (p.generateNonce X)
      (fun b => (Nonce.decode b).map fun k => ⟨p.key, p.message, X, k⟩)
      fun k => ⟨p.key, p.message, X, ⟨k⟩⟩ := by
  refine ⟨Secret.exists_endsAt_draw, PrivateKey.samples_generate, Nonce.samples_generate,
    ?_, ?_, ?_⟩
  · intro x m
    exact Nonce.samples_generate.map fun k => x.signWith k m
  · intro m
    exact PrivateKey.samples_generate.map fun x => Signatory.AwaitingKey.mk x m
  · intro p X
    exact Nonce.samples_generate.map fun k => Signatory.AwaitingNonce.mk p.key p.message X k

/-! A script whose first block is five times the order, whose second is the order squared and seven
more, and which goes on for three bytes, and one that breaks off within its second block. -/

def passedOver : Bytes := Bytes.digits 64 (5 * N) ++ Bytes.digits 64 (N * N + 7) ++ [1, 2, 3]

def brokenOff : Bytes := Bytes.digits 64 N ++ List.replicate 63 1

theorem isLeast_passedOver : IsLeast {i | YieldsAt passedOver i} 1 := by
  have hfirst : N ∣ (scriptBlock passedOver 0).value := by decide +kernel
  refine ⟨⟨by decide +kernel, by decide +kernel⟩, ?_⟩
  rintro (_ | i) hi
  · exact absurd hfirst hi.not_dvd
  · exact Nat.succ_le_succ (Nat.zero_le i)

theorem not_yieldsAt_brokenOff (i : Nat) : ¬ YieldsAt brokenOff i := by
  rintro ⟨hcomplete, hv⟩
  have hlen : brokenOff.length = 127 := by decide +kernel
  have hfirst : N ∣ (scriptBlock brokenOff 0).value := by decide +kernel
  obtain rfl : i = 0 := by omega
  exact hv hfirst

/-- The key with the scalar 37. -/
def thirtySeven : PrivateKey := ⟨⟨37, by decide⟩⟩

theorem rejection_sampling_passedOver :
    (∃ k : Secret, k.scalar.val = 7 ∧ PrivateKey.generate passedOver = .ok (⟨k⟩, [1, 2, 3]) ∧
      PrivateKey.decode (Octets.ofNat 32 7).toList = .ok ⟨k⟩) ∧
    (∃ k : Secret, k.scalar.val = 7 ∧
      thirtySeven.sign [104, 105] passedOver =
        .ok (thirtySeven.signWith ⟨k⟩ [104, 105], [1, 2, 3]) ∧
      thirtySeven.signFromScalar (Octets.ofNat 32 7).toList [104, 105] =
        .ok (thirtySeven.signWith ⟨k⟩ [104, 105])) ∧
    Signatory.generate [104, 105] brokenOff = .error .randomness ∧
    Secret.EndsAt brokenOff 2 (Secret.draw brokenOff) := by
  obtain ⟨hends, hkey, -, hsign, hsignatory, -⟩ := rejection_sampling
  have hresidue : (scriptBlock passedOver 1).value % N = 7 := by decide +kernel
  have hrest : passedOver.drop (64 * (1 + 1)) = [1, 2, 3] := by decide +kernel
  have hlen : brokenOff.length / 64 + 1 = 2 := by decide +kernel
  refine ⟨?_, ?_, (hsignatory _).of_none _ not_yieldsAt_brokenOff, ?_⟩
  · obtain ⟨k, rest, hval, hrun, rfl, -, hread⟩ := hkey.of_isLeast _ _ isLeast_passedOver
    rw [hresidue] at hval hread
    rw [hrest] at hrun
    exact ⟨k, hval, hrun, hread⟩
  · obtain ⟨k, rest, hval, hrun, rfl, -, hread⟩ :=
      (hsign thirtySeven [104, 105]).of_isLeast _ _ isLeast_passedOver
    rw [hresidue] at hval hread
    rw [hrest] at hrun
    exact ⟨k, hval, hrun, hread⟩
  · obtain ⟨n, hn, -, -, hlast⟩ := hends brokenOff
    rwa [hlast not_yieldsAt_brokenOff, hlen] at hn

end JointSchnorr
