import Mathlib
import JointSchnorr.Proofs.Shares

/-!
# Joint signing and signing alone

A `JointRun` holds what the stages of joint signing yield on encoded keys and nonces: the decoded
secrets, both aggregates, the shares under the encoded aggregates and their combination. Such a run
exists whenever the secrets can be read and no sum of them is zero, and its signature has the bytes
of the signature that one signer makes with the summed key and the summed nonce
(`joint_signature_eq_single`).
-/

namespace JointSchnorr

/-- Joint signing of `m` by the parties with the encoded keys `ds` and the encoded nonces `ks`. -/
structure JointRun (m : Bytes) (ds ks : List Bytes) where
  keys : List PrivateKey
  nonces : List Nonce
  aggregateKey : PublicKey
  aggregateNonce : PublicKey
  shares : List Signature
  signature : Signature
  keys_decoded : List.Forall₂ (fun d x => PrivateKey.decode d = .ok x) ds keys
  nonces_decoded : List.Forall₂ (fun k n => Nonce.decode k = .ok n) ks nonces
  keys_aggregated : PublicKey.aggregate (keys.map (·.publicKey)) = .ok aggregateKey
  nonces_aggregated : PublicKey.aggregateNonces (nonces.map (·.publicNonce)) = .ok aggregateNonce
  shares_signed : List.zipWith (fun d k =>
    partialSign m d aggregateKey.encode.toList k aggregateNonce.encode.toList) ds ks =
      shares.map .ok
  shares_combined : Signature.combine shares = .ok signature

/-- Decoding a list succeeds when it does at each element, and a value known of each result is
known of the list. -/
theorem exists_decoded {α β γ ε : Type} {decode : α → Except ε β} {f : β → γ} {g : α → γ}
    {as : List α} (h : ∀ a ∈ as, ∃ b, f b = g a ∧ decode a = .ok b) :
    ∃ bs : List β, List.Forall₂ (fun a b => decode a = .ok b) as bs ∧ bs.map f = as.map g := by
  induction as with
  | nil => exact ⟨[], .nil, rfl⟩
  | cons a as ih =>
    obtain ⟨⟨b, hf, hb⟩, has⟩ := List.forall_mem_cons.1 h
    obtain ⟨bs, hbs, hfs⟩ := ih has
    refine ⟨b :: bs, .cons hb hbs, ?_⟩
    rw [List.map_cons, List.map_cons, hf, hfs]

theorem partialSign_encode {m d k : Bytes} {x : PrivateKey} {n : Nonce} {X R : PublicKey}
    (hd : PrivateKey.decode d = .ok x) (hk : Nonce.decode k = .ok n)
    (hX : ¬ X.point.IsSmallOrder) (hR : ¬ R.point.IsSmallOrder) :
    partialSign m d X.encode.toList k R.encode.toList = .ok (Context.share ⟨X, R, m⟩ x n) := by
  rw [partialSign, hd, hk, PublicKey.decodeAggregate_encode _ hX,
    PublicKey.decodeAggregate_encode _ hR]
  rfl

theorem zipWith_partialSign {m : Bytes} {ds ks : List Bytes} {xs : List PrivateKey}
    {ns : List Nonce} {X R : PublicKey}
    (hd : List.Forall₂ (fun d x => PrivateKey.decode d = .ok x) ds xs)
    (hk : List.Forall₂ (fun k n => Nonce.decode k = .ok n) ks ns)
    (hX : ¬ X.point.IsSmallOrder) (hR : ¬ R.point.IsSmallOrder) :
    List.zipWith (fun d k => partialSign m d X.encode.toList k R.encode.toList) ds ks =
      ((xs.zip ns).map fun p => Context.share ⟨X, R, m⟩ p.1 p.2).map .ok := by
  induction hd generalizing ks ns with
  | nil => rfl
  | cons hx _ ih =>
    cases hk with
    | nil => rfl
    | cons hn hns =>
      rw [List.zipWith_cons_cons, partialSign_encode hx hn hX hR, ih hns]
      rfl

theorem length_ofNat_mod (n : Nat) : (Octets.ofNat 32 (n % N)).toList.length = 32 :=
  (Octets.ofNat 32 (n % N)).length_toList

theorem not_dvd_ofNat_mod {n : Nat} (h : ¬ N ∣ n) : ¬ N ∣ (Octets.ofNat 32 (n % N)).toList.value := by
  intro hdvd
  have hn := Nat.mod_lt n N_pos
  have hv : (Octets.ofNat 32 (n % N)).toList.value = n % N :=
    Octets.value_ofNat (hn.trans Scalar.N_lt)
  rw [hv, Nat.dvd_mod_iff (dvd_refl N)] at hdvd
  exact h hdvd

/-- When the values of encoded secrets do not sum up to a multiple of `N`, the encoding of the sum
reads as the sum of what the single encodings read as. -/
theorem exists_decoded_sum {β : Type} {decode : Bytes → Except Error β} {scalar : β → Scalar}
    (hdecode : ∀ bs, bs.length = 32 → ¬ N ∣ bs.value →
      ∃ b, scalar b = Scalar.ofBytes bs ∧ decode bs = .ok b)
    {bss : List Bytes} (h : ∀ bs ∈ bss, bs.length = 32 ∧ ¬ N ∣ bs.value)
    (hsum : ¬ N ∣ (bss.map Bytes.value).sum) :
    ∃ (bs : List β) (total : β), List.Forall₂ (fun a b => decode a = .ok b) bss bs ∧ bs ≠ [] ∧
      decode (Octets.ofNat 32 ((bss.map Bytes.value).sum % N)).toList = .ok total ∧
      scalar total = Fin.ofNat N (bss.map Bytes.value).sum ∧
      Scalar.sum (bs.map scalar) = scalar total := by
  obtain ⟨bs, hbs, hscalars⟩ := exists_decoded fun b hb => hdecode b (h b hb).1 (h b hb).2
  obtain ⟨total, htotal, hd⟩ := hdecode _ (length_ofNat_mod _) (not_dvd_ofNat_mod hsum)
  rw [Scalar.ofBytes_ofNat_mod] at htotal
  have hne : bs ≠ [] := by
    rintro rfl
    cases hbs
    exact hsum (dvd_zero N)
  refine ⟨bs, total, hbs, hne, hd, htotal, ?_⟩
  rw [hscalars, Scalar.sum_ofBytes, htotal]

/-- Shares of all parties combine to the share of the summed secrets. -/
theorem combine_shares {c : Context} {xs : List PrivateKey} {ns : List Nonce}
    (hlen : xs.length = ns.length) (hne : xs ≠ []) (hR : ¬ c.nonce.point.IsSmallOrder) :
    Signature.combine ((xs.zip ns).map fun p => c.share p.1 p.2) =
      .ok ⟨c.nonce.encode, Scalar.sum (ns.map (·.scalar)) +
        c.challenge * Scalar.sum (xs.map (·.scalar))⟩ := by
  have hkeys : (xs.zip ns).map (fun p => p.1.scalar) = xs.map (·.scalar) := by
    conv_rhs => rw [← List.map_fst_zip hlen.le, List.map_map]
    rfl
  have hnonces : (xs.zip ns).map (fun p => p.2.scalar) = ns.map (·.scalar) := by
    conv_rhs => rw [← List.map_snd_zip hlen.ge, List.map_map]
    rfl
  have hzip : xs.zip ns ≠ [] := by
    intro h
    rcases List.zip_eq_nil_iff.1 h with h | h
    · exact hne h
    · rw [h, List.length_nil] at hlen
      exact hne (List.length_eq_zero_iff.1 hlen)
  have hr : ∀ σ ∈ (xs.zip ns).map (fun p => c.share p.1 p.2), σ.r = c.nonce.encode := by
    intro σ hσ
    obtain ⟨p, -, rfl⟩ := List.mem_map.1 hσ
    rfl
  have hsum := c.sum_share (fun p : PrivateKey × Nonce => p.1) (fun p => p.2) (xs.zip ns)
  rw [hkeys, hnonces] at hsum
  rw [Signature.combine_of_commitment (by simpa using hzip) hr hR, List.map_map]
  exact congrArg (fun s => Except.ok (Signature.mk c.nonce.encode s)) hsum

/-- **Joint signing equals signing alone.** Every stage succeeds on readable secrets whose sums are
not zero, and the joint signature is the one that the summed key makes with the summed nonce. -/
theorem joint_signature_eq_single {ds ks : List Bytes} (hlen : ds.length = ks.length)
    (hd : ∀ d ∈ ds, d.length = 32 ∧ ¬ N ∣ d.value) (hk : ∀ k ∈ ks, k.length = 32 ∧ ¬ N ∣ k.value)
    (hkey : ¬ N ∣ (ds.map Bytes.value).sum) (hnonce : ¬ N ∣ (ks.map Bytes.value).sum)
    (m : Bytes) :
    ∃ run : JointRun m ds ks,
      run.aggregateKey.point = (ds.map Bytes.value).sum • Point.base ∧
      run.aggregateNonce.point = (ks.map Bytes.value).sum • Point.base ∧
      ∃ x τ, PrivateKey.decode (Octets.ofNat 32 ((ds.map Bytes.value).sum % N)).toList = .ok x ∧
        x.signFromScalar (Octets.ofNat 32 ((ks.map Bytes.value).sum % N)).toList m = .ok τ ∧
        run.signature.encode = τ.encode := by
  obtain ⟨xs, x, hxs, hxne, hxd, hx, hxsum⟩ :=
    exists_decoded_sum (fun _ => PrivateKey.exists_decode) hd hkey
  obtain ⟨ns, n, hns, hnne, hnd, hn, hnsum⟩ :=
    exists_decoded_sum (fun _ => Nonce.exists_decode) hk hnonce
  -- the aggregates are the public parts of the one signer's secrets
  have hkeys := PublicKey.aggregate_multiples _ _ PrivateKey.publicKey_point hxne
  have hnonces := PublicKey.aggregateNonces_multiples _ _ Nonce.publicNonce_point hnne
  rw [hxsum, if_neg x.scalar_ne_zero] at hkeys
  rw [hnsum, if_neg n.scalar_ne_zero] at hnonces
  have hshares := zipWith_partialSign (m := m) hxs hns x.not_isSmallOrder n.not_isSmallOrder
  have hcombine := combine_shares (c := ⟨x.publicKey, n.publicNonce, m⟩)
    (by rw [← hxs.length_eq, ← hns.length_eq, hlen]) hxne n.not_isSmallOrder
  rw [hxsum, hnsum] at hcombine
  refine ⟨⟨xs, ns, x.publicKey, n.publicNonce, _, _, hxs, hns, hkeys, hnonces, hshares, hcombine⟩,
    ?_, ?_, x, x.signWith n m, hxd, ?_, rfl⟩
  · rw [← Point.ofNat_smul_base, ← hx]
    rfl
  · rw [← Point.ofNat_smul_base, ← hn]
    rfl
  · rw [PrivateKey.signFromScalar, hnd]
    rfl

/-- Two parties of which one writes its key, and the other its nonce, above `N`. -/
theorem joint_signature_of_unreduced :
    (∀ d ∈ [Bytes.digits 32 5, Bytes.digits 32 (N + 7)], d.length = 32 ∧ ¬ N ∣ d.value) ∧
    (∀ k ∈ [Bytes.digits 32 (3 * N + 2), Bytes.digits 32 9], k.length = 32 ∧ ¬ N ∣ k.value) ∧
    ∃ run : JointRun [104, 105] [Bytes.digits 32 5, Bytes.digits 32 (N + 7)]
        [Bytes.digits 32 (3 * N + 2), Bytes.digits 32 9],
      run.aggregateKey.point = (N + 12) • Point.base ∧
      run.aggregateNonce.point = (3 * N + 11) • Point.base ∧
      ∃ x τ, PrivateKey.decode (Octets.ofNat 32 12).toList = .ok x ∧
        x.signFromScalar (Octets.ofNat 32 11).toList [104, 105] = .ok τ ∧
        run.signature.encode = τ.encode := by
  have hd : ∀ d ∈ [Bytes.digits 32 5, Bytes.digits 32 (N + 7)], d.length = 32 ∧ ¬ N ∣ d.value := by
    decide +kernel
  have hk : ∀ k ∈ [Bytes.digits 32 (3 * N + 2), Bytes.digits 32 9],
      k.length = 32 ∧ ¬ N ∣ k.value := by decide +kernel
  have hkeys : ([Bytes.digits 32 5, Bytes.digits 32 (N + 7)].map Bytes.value).sum = N + 12 := by
    decide +kernel
  have hnonces : ([Bytes.digits 32 (3 * N + 2), Bytes.digits 32 9].map Bytes.value).sum =
      3 * N + 11 := by decide +kernel
  have hlen : [Bytes.digits 32 5, Bytes.digits 32 (N + 7)].length =
      [Bytes.digits 32 (3 * N + 2), Bytes.digits 32 9].length := rfl
  have h := joint_signature_eq_single hlen hd hk (by rw [hkeys]; decide)
    (by rw [hnonces]; decide) [104, 105]
  rw [hkeys, hnonces] at h
  exact ⟨hd, hk, h⟩

end JointSchnorr
