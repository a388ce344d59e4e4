import Mathlib
import JointSchnorr.Proofs.Session.Steps

/-!
# Footprints of steps

A session is a store of cells: four for each seat, and the aggregator with the last aggregates. The
step of a signatory writes cells of its own seat only, and reads an aggregate or a share of another
seat only when its argument stands for one. Outside of what a step writes it changes nothing
(`agreeAt_step`), and what it answers and writes depends on its footprint alone (`step_local`). So
two steps can be taken in either order if each of them leaves the footprint of the other as it is
(`Apart.run_pair_comm`). Steps of different signatories do, unless one is to accept a share that the
other one publishes (`apart_of_subject_ne`).
-/

namespace JointSchnorr.Session

/-! ## Cells -/

/-- A part of a session. -/
inductive Cell where
  | occupant (id : String)
  | key (id : String)
  | nonce (id : String)
  | share (id : String)
  | aggregator
  | aggregateKey
  | aggregateNonce
  | jointSignature
deriving DecidableEq

/-- Two sessions have the same in a cell. -/
def AgreeAt (s s' : Session) : Cell → Prop
  | .occupant id => (s.seats id).occupant = (s'.seats id).occupant
  | .key id => (s.seats id).key = (s'.seats id).key
  | .nonce id => (s.seats id).nonce = (s'.seats id).nonce
  | .share id => (s.seats id).share = (s'.seats id).share
  | .aggregator => s.aggregator = s'.aggregator
  | .aggregateKey => s.aggregateKey = s'.aggregateKey
  | .aggregateNonce => s.aggregateNonce = s'.aggregateNonce
  | .jointSignature => s.jointSignature = s'.jointSignature

variable {s s' s'' : Session} {c : Cell} {id : String} {t u : Step}

theorem AgreeAt.refl (s : Session) (c : Cell) : AgreeAt s s c := by
  cases c <;> rfl

theorem AgreeAt.symm (h : AgreeAt s s' c) : AgreeAt s' s c := by
  cases c <;> exact Eq.symm h

theorem AgreeAt.trans (h : AgreeAt s s' c) (h' : AgreeAt s' s'' c) : AgreeAt s s'' c := by
  cases c <;> exact Eq.trans h h'

/-- The cells make up the session. -/
theorem eq_of_agreeAt (h : ∀ c, AgreeAt s s' c) : s = s' := by
  have hseats : s.seats = s'.seats := by
    funext id
    have key := h (.key id)
    have nonce := h (.nonce id)
    have share := h (.share id)
    have occupant := h (.occupant id)
    simp only [AgreeAt] at key nonce share occupant
    cases hs : s.seats id
    cases hs' : s'.seats id
    simp_all
  have aggregator := h .aggregator
  have aggregateKey := h .aggregateKey
  have aggregateNonce := h .aggregateNonce
  have jointSignature := h .jointSignature
  cases s
  cases s'
  simp_all [AgreeAt]

/-- A new seat changes the cells in which it differs from the old one. -/
theorem agreeAt_setSeat {seat : Seat}
    (ho : c ≠ .occupant id ∨ seat.occupant = (s.seats id).occupant)
    (hk : c ≠ .key id ∨ seat.key = (s.seats id).key)
    (hn : c ≠ .nonce id ∨ seat.nonce = (s.seats id).nonce)
    (hσ : c ≠ .share id ∨ seat.share = (s.seats id).share) :
    AgreeAt (s.setSeat id seat) s c := by
  cases c with
  | occupant name =>
    by_cases h : name = id
    · subst h
      simpa [AgreeAt] using ho
    · simp [AgreeAt, s.setSeat_seats_of_ne seat h]
  | key name =>
    by_cases h : name = id
    · subst h
      simpa [AgreeAt] using hk
    · simp [AgreeAt, s.setSeat_seats_of_ne seat h]
  | nonce name =>
    by_cases h : name = id
    · subst h
      simpa [AgreeAt] using hn
    · simp [AgreeAt, s.setSeat_seats_of_ne seat h]
  | share name =>
    by_cases h : name = id
    · subst h
      simpa [AgreeAt] using hσ
    · simp [AgreeAt, s.setSeat_seats_of_ne seat h]
  | _ => rfl

/-! ## Footprints -/

/-- The seat whose key or nonce a round takes. -/
def PointSource.reference? : PointSource → Option String
  | .encoded _ => none
  | .published id => some id

/-- The seat whose share a signature stands for. -/
def SignatureSource.reference? : SignatureSource → Option String
  | .published id => some id
  | .shiftedShare id _ => some id
  | _ => none

/-- The seat whose share a signatory is to accept. -/
def Step.reference? : Step → Option String
  | .accept _ given => given.bind SignatureSource.reference?
  | _ => none

/-- The cells that a step can change. -/
def Step.writes : Step → List Cell
  | .create id _ _ => [.occupant id, .key id]
  | .generateNonce id _ _ => [.occupant id, .nonce id]
  | .partialSign id _ => [.occupant id, .share id]
  | .accept id _ => [.occupant id]
  | .showSignatory _ => []
  | .openAggregator _ _ => [.aggregator]
  | .aggregateKeys _ => [.aggregator, .aggregateKey]
  | .aggregateNonces _ => [.aggregator, .aggregateNonce]
  | .aggregateSignatures _ => [.aggregator, .jointSignature]
  | .showAggregator => []

/-- The cells that a step looks at and does not change. -/
def Step.reads : Step → List Cell
  | .create _ _ _ => []
  | .generateNonce _ _ given => if given.isNone then [.aggregateKey] else []
  | .partialSign _ given => if given.isNone then [.aggregateNonce] else []
  | .accept id given => .jointSignature :: (Step.accept id given).reference?.toList.map .share
  | .showSignatory id => [.occupant id]
  | .openAggregator _ _ => []
  | .aggregateKeys keys => (keys.filterMap PointSource.reference?).map .key
  | .aggregateNonces nonces => (nonces.filterMap PointSource.reference?).map .nonce
  | .aggregateSignatures shares => (shares.filterMap SignatureSource.reference?).map .share
  | .showAggregator => [.aggregator]

/-- The cells on which the effect and the answer of a step depend. -/
def Step.footprint (t : Step) : List Cell := t.reads ++ t.writes

/-- No step writes into the footprint of the other. -/
def Step.Independent (t u : Step) : Prop :=
  t.writes.Disjoint u.footprint ∧ u.writes.Disjoint t.footprint

theorem Step.Independent.symm (h : t.Independent u) : u.Independent t :=
  ⟨h.2, h.1⟩

/-! ## What a step leaves as it is -/

/-- A step changes the cells that it writes at most. -/
theorem agreeAt_step (s : Session) (h : c ∉ t.writes) : AgreeAt (s.step t).1 s c := by
  cases t with
  | create name m key =>
    simp only [Step.writes, List.mem_cons, List.not_mem_nil, or_false, not_or] at h
    rcases s.create_cases name m key with ⟨e, hs⟩ | ⟨p, -, hs⟩
    · rw [step, hs]
      exact .refl s c
    · rw [step, hs]
      exact agreeAt_setSeat (.inl h.1) (.inl h.2) (.inr rfl) (.inr rfl)
  | generateNonce name script given =>
    simp only [Step.writes, List.mem_cons, List.not_mem_nil, or_false, not_or] at h
    rcases s.generateNonce_cases name script given with
      ⟨f, -, hs⟩ | ⟨X, p, -, -, ⟨-, hs⟩ | ⟨k, rest, -, hs⟩⟩
    · rw [step, hs]
      exact .refl s c
    · rw [step, hs]
      exact agreeAt_setSeat (.inl h.1) (.inr rfl) (.inr rfl) (.inr rfl)
    · rw [step, hs]
      exact agreeAt_setSeat (.inl h.1) (.inr rfl) (.inl h.2) (.inr rfl)
  | partialSign name given =>
    simp only [Step.writes, List.mem_cons, List.not_mem_nil, or_false, not_or] at h
    rcases s.partialSign_cases name given with ⟨f, hs⟩ | ⟨R, p, -, -, hs⟩
    · rw [step, hs]
      exact .refl s c
    · rw [step, hs]
      exact agreeAt_setSeat (.inl h.1) (.inr rfl) (.inr rfl) (.inl h.2)
  | accept name given =>
    simp only [Step.writes, List.mem_cons, List.not_mem_nil, or_false] at h
    rcases s.accept_cases name given with
      ⟨f, -, hs⟩ | ⟨σ, p, -, -, ⟨-, hs⟩ | ⟨-, hs⟩⟩
    · rw [step, hs]
      exact .refl s c
    · rw [step, hs]
      exact agreeAt_setSeat (.inl h) (.inr rfl) (.inr rfl) (.inr rfl)
    · rw [step, hs]
      exact agreeAt_setSeat (.inl h) (.inr rfl) (.inr rfl) (.inr rfl)
  | openAggregator n m =>
    rcases s.openAggregator_cases n m with ⟨e, -, hs⟩ | ⟨a, -, hs⟩ <;>
      rw [step, hs] <;> cases c <;> simp [AgreeAt, Step.writes] at h ⊢
  | aggregateKeys keys =>
    rcases s.aggregateKeys_cases keys with
      ⟨f, hs⟩ | ⟨Xs, a, -, -, ⟨e, -, hs⟩ | ⟨b, -, hs⟩⟩ <;>
      rw [step, hs] <;> cases c <;> simp [AgreeAt, Step.writes] at h ⊢
  | aggregateNonces nonces =>
    rcases s.aggregateNonces_cases nonces with
      ⟨f, hs⟩ | ⟨Rs, a, -, -, ⟨e, -, hs⟩ | ⟨b, -, hs⟩⟩ <;>
      rw [step, hs] <;> cases c <;> simp [AgreeAt, Step.writes] at h ⊢
  | aggregateSignatures shares =>
    rcases s.aggregateSignatures_cases shares with
      ⟨f, hs⟩ | ⟨σs, a, -, -, ⟨e, -, hs⟩ | ⟨b, -, hs⟩⟩ <;>
      rw [step, hs] <;> cases c <;> simp [AgreeAt, Step.writes] at h ⊢
  | showSignatory name => exact .refl s c
  | showAggregator => exact .refl s c

/-! ## What a step depends on -/

/-- Two outcomes of a step have the same answer and leave the same in some cells. -/
def AgreeOn (cs : List Cell) (r r' : Session × Except Failure Answer) : Prop :=
  r.2 = r'.2 ∧ ∀ c ∈ cs, AgreeAt r.1 r'.1 c

theorem resolveAll_congr {α β : Type} {f g : α → Except Failure β} {as : List α}
    (h : ∀ a ∈ as, f a = g a) : resolveAll f as = resolveAll g as := by
  induction as with
  | nil => rfl
  | cons a as ih =>
    rw [resolveAll, resolveAll, h a List.mem_cons_self,
      ih fun b hb => h b (List.mem_cons_of_mem a hb)]

theorem resolveAggregate_congr {last last' : Option PublicKey} {given : Option Bytes}
    (h : given.isNone → last = last') :
    resolveAggregate last given = resolveAggregate last' given := by
  cases given with
  | some bs => rfl
  | none => rw [h rfl]

theorem resolvePoint_congr {kept : Seat → Option PublicKey} {source : PointSource}
    (h : ∀ id, source.reference? = some id → kept (s.seats id) = kept (s'.seats id)) :
    s.resolvePoint kept source = s'.resolvePoint kept source := by
  cases source with
  | encoded bs => rfl
  | published name => exact congrArg resolveReference (h name rfl)

theorem resolveSignature_congr {source : SignatureSource}
    (hjoint : s.jointSignature = s'.jointSignature)
    (h : ∀ id, source.reference? = some id → (s.seats id).share = (s'.seats id).share) :
    s.resolveSignature source = s'.resolveSignature source := by
  cases source with
  | encoded bs => rfl
  | given σ => rfl
  | published name => rw [resolveSignature, resolveSignature, h name rfl]
  | shiftedShare name x => rw [resolveSignature, resolveSignature, h name rfl]
  | shiftedJoint x => rw [resolveSignature, resolveSignature, hjoint]

theorem resolveAccepted_congr {given : Option SignatureSource}
    (hjoint : s.jointSignature = s'.jointSignature)
    (h : ∀ id, given.bind SignatureSource.reference? = some id →
      (s.seats id).share = (s'.seats id).share) :
    s.resolveAccepted given = s'.resolveAccepted given := by
  cases given with
  | some source => exact resolveSignature_congr hjoint h
  | none => rw [resolveAccepted, resolveAccepted, hjoint]

/-! One lemma for each kind of step; `hr` is about what it reads and `hw` about what it writes. -/

theorem create_local {m : Bytes} {key : KeySource}
    (hw : ∀ c ∈ (Step.create id m key).writes, AgreeAt s s' c) :
    AgreeOn (Step.create id m key).writes (s.create id m key) (s'.create id m key) := by
  unfold create
  cases newSignatory m key with
  | error e => exact ⟨rfl, hw⟩
  | ok p => exact ⟨rfl, by simp [Step.writes, AgreeAt]⟩

theorem generateNonce_local {script : Bytes} {given : Option Bytes}
    (hr : ∀ c ∈ (Step.generateNonce id script given).reads, AgreeAt s s' c)
    (hw : ∀ c ∈ (Step.generateNonce id script given).writes, AgreeAt s s' c) :
    AgreeOn (Step.generateNonce id script given).writes (s.generateNonce id script given)
      (s'.generateNonce id script given) := by
  have hX : resolveAggregate s.aggregateKey given = resolveAggregate s'.aggregateKey given :=
    resolveAggregate_congr fun h => hr .aggregateKey (by simp [Step.reads, h])
  have ho : (s.seats id).occupant = (s'.seats id).occupant :=
    hw (.occupant id) (by simp [Step.writes])
  have hn : (s.seats id).nonce = (s'.seats id).nonce := hw (.nonce id) (by simp [Step.writes])
  unfold generateNonce
  rw [hX, ho]
  cases resolveAggregate s'.aggregateKey given with
  | error f => exact ⟨rfl, hw⟩
  | ok X =>
    dsimp only
    split
    · exact ⟨rfl, hw⟩
    · split
      · exact ⟨rfl, by simpa [Step.writes, AgreeAt, spend] using hn⟩
      · exact ⟨rfl, by simp [Step.writes, AgreeAt]⟩
    · exact ⟨rfl, hw⟩

theorem partialSign_local {given : Option Bytes}
    (hr : ∀ c ∈ (Step.partialSign id given).reads, AgreeAt s s' c)
    (hw : ∀ c ∈ (Step.partialSign id given).writes, AgreeAt s s' c) :
    AgreeOn (Step.partialSign id given).writes (s.partialSign id given)
      (s'.partialSign id given) := by
  have hR : resolveAggregate s.aggregateNonce given = resolveAggregate s'.aggregateNonce given :=
    resolveAggregate_congr fun h => hr .aggregateNonce (by simp [Step.reads, h])
  have ho : (s.seats id).occupant = (s'.seats id).occupant :=
    hw (.occupant id) (by simp [Step.writes])
  unfold partialSign
  rw [hR, ho]
  cases resolveAggregate s'.aggregateNonce given with
  | error f => exact ⟨rfl, hw⟩
  | ok R =>
    dsimp only
    split
    · exact ⟨rfl, hw⟩
    · exact ⟨rfl, by simp [Step.writes, AgreeAt]⟩
    · exact ⟨rfl, hw⟩

theorem accept_local {given : Option SignatureSource}
    (hr : ∀ c ∈ (Step.accept id given).reads, AgreeAt s s' c)
    (hw : ∀ c ∈ (Step.accept id given).writes, AgreeAt s s' c) :
    AgreeOn (Step.accept id given).writes (s.accept id given) (s'.accept id given) := by
  have hσ : s.resolveAccepted given = s'.resolveAccepted given :=
    resolveAccepted_congr (hr .jointSignature (by simp [Step.reads]))
      fun name h => hr (.share name) (by simp [Step.reads, Step.reference?, h])
  have ho : (s.seats id).occupant = (s'.seats id).occupant :=
    hw (.occupant id) (by simp [Step.writes])
  unfold accept
  rw [hσ, ho]
  cases s'.resolveAccepted given with
  | error f => exact ⟨rfl, hw⟩
  | ok σ =>
    dsimp only
    split
    · exact ⟨rfl, hw⟩
    · split
      · exact ⟨rfl, by simp [Step.writes, AgreeAt, spend]⟩
      · exact ⟨rfl, by simp [Step.writes, AgreeAt]⟩
    · exact ⟨rfl, hw⟩

theorem openAggregator_local {n : Nat} {m : Bytes} :
    AgreeOn (Step.openAggregator n m).writes (s.openAggregator n m) (s'.openAggregator n m) := by
  unfold openAggregator
  cases Aggregator.start n m with
  | error e => exact ⟨rfl, by simp [Step.writes, AgreeAt]⟩
  | ok a => exact ⟨rfl, by simp [Step.writes, AgreeAt]⟩

theorem aggregateKeys_local {keys : List PointSource}
    (hr : ∀ c ∈ (Step.aggregateKeys keys).reads, AgreeAt s s' c)
    (hw : ∀ c ∈ (Step.aggregateKeys keys).writes, AgreeAt s s' c) :
    AgreeOn (Step.aggregateKeys keys).writes (s.aggregateKeys keys) (s'.aggregateKeys keys) := by
  have hXs : resolveAll (s.resolvePoint Seat.key) keys =
      resolveAll (s'.resolvePoint Seat.key) keys :=
    resolveAll_congr fun source hmem => resolvePoint_congr fun name h =>
      hr (.key name) (List.mem_map_of_mem (List.mem_filterMap.2 ⟨source, hmem, h⟩))
  have ha : s.aggregator = s'.aggregator := hw .aggregator (by simp [Step.writes])
  have hlast : s.aggregateKey = s'.aggregateKey := hw .aggregateKey (by simp [Step.writes])
  unfold aggregateKeys
  rw [hXs, ha]
  cases resolveAll (s'.resolvePoint Seat.key) keys with
  | error f => exact ⟨rfl, hw⟩
  | ok Xs =>
    dsimp only
    split
    · split
      · exact ⟨rfl, by simpa [Step.writes, AgreeAt] using hlast⟩
      · exact ⟨rfl, by simp [Step.writes, AgreeAt]⟩
    · exact ⟨rfl, hw⟩

theorem aggregateNonces_local {nonces : List PointSource}
    (hr : ∀ c ∈ (Step.aggregateNonces nonces).reads, AgreeAt s s' c)
    (hw : ∀ c ∈ (Step.aggregateNonces nonces).writes, AgreeAt s s' c) :
    AgreeOn (Step.aggregateNonces nonces).writes (s.aggregateNonces nonces)
      (s'.aggregateNonces nonces) := by
  have hRs : resolveAll (s.resolvePoint Seat.nonce) nonces =
      resolveAll (s'.resolvePoint Seat.nonce) nonces :=
    resolveAll_congr fun source hmem => resolvePoint_congr fun name h =>
      hr (.nonce name) (List.mem_map_of_mem (List.mem_filterMap.2 ⟨source, hmem, h⟩))
  have ha : s.aggregator = s'.aggregator := hw .aggregator (by simp [Step.writes])
  have hlast : s.aggregateNonce = s'.aggregateNonce := hw .aggregateNonce (by simp [Step.writes])
  unfold aggregateNonces
  rw [hRs, ha]
  cases resolveAll (s'.resolvePoint Seat.nonce) nonces with
  | error f => exact ⟨rfl, hw⟩
  | ok Rs =>
    dsimp only
    split
    · split
      · exact ⟨rfl, by simpa [Step.writes, AgreeAt] using hlast⟩
      · exact ⟨rfl, by simp [Step.writes, AgreeAt]⟩
    · exact ⟨rfl, hw⟩

theorem aggregateSignatures_local {shares : List SignatureSource}
    (hr : ∀ c ∈ (Step.aggregateSignatures shares).reads, AgreeAt s s' c)
    (hw : ∀ c ∈ (Step.aggregateSignatures shares).writes, AgreeAt s s' c) :
    AgreeOn (Step.aggregateSignatures shares).writes (s.aggregateSignatures shares)
      (s'.aggregateSignatures shares) := by
  have ha : s.aggregator = s'.aggregator := hw .aggregator (by simp [Step.writes])
  have hlast : s.jointSignature = s'.jointSignature := hw .jointSignature (by simp [Step.writes])
  have hσs : resolveAll s.resolveSignature shares = resolveAll s'.resolveSignature shares :=
    resolveAll_congr fun source hmem => resolveSignature_congr hlast fun name h =>
      hr (.share name) (List.mem_map_of_mem (List.mem_filterMap.2 ⟨source, hmem, h⟩))
  unfold aggregateSignatures
  rw [hσs, ha]
  cases resolveAll s'.resolveSignature shares with
  | error f => exact ⟨rfl, hw⟩
  | ok σs =>
    dsimp only
    split
    · split
      · exact ⟨rfl, by simpa [Step.writes, AgreeAt] using hlast⟩
      · exact ⟨rfl, by simp [Step.writes, AgreeAt]⟩
    · exact ⟨rfl, hw⟩

/-- In two sessions that agree on its footprint, a step answers and writes the same. -/
theorem step_local (h : ∀ c ∈ t.footprint, AgreeAt s s' c) :
    AgreeOn t.writes (s.step t) (s'.step t) := by
  obtain ⟨hr, hw⟩ := List.forall_mem_append.1 h
  cases t with
  | create name m key => exact create_local hw
  | generateNonce name script given => exact generateNonce_local hr hw
  | partialSign name given => exact partialSign_local hr hw
  | accept name given => exact accept_local hr hw
  | showSignatory name =>
    have ho : (s.seats name).occupant = (s'.seats name).occupant :=
      hr (.occupant name) (by simp [Step.reads])
    exact ⟨by rw [step, step, showSignatory, showSignatory, ho], hw⟩
  | openAggregator n m => exact openAggregator_local
  | aggregateKeys keys => exact aggregateKeys_local hr hw
  | aggregateNonces nonces => exact aggregateNonces_local hr hw
  | aggregateSignatures shares => exact aggregateSignatures_local hr hw
  | showAggregator =>
    have ha : s.aggregator = s'.aggregator := hr .aggregator (by simp [Step.reads])
    exact ⟨by rw [step, step, showAggregator, showAggregator, ha], hw⟩

/-! ## Two steps in either order -/

/-- In a session, two steps write different cells, and each of them leaves what the other one
depends on as it is. -/
structure Apart (s : Session) (t u : Step) : Prop where
  writes : t.writes.Disjoint u.writes
  spares : ∀ c ∈ u.footprint, AgreeAt (s.step t).1 s c
  spared : ∀ c ∈ t.footprint, AgreeAt (s.step u).1 s c

theorem Apart.symm (h : s.Apart t u) : s.Apart u t :=
  ⟨h.writes.symm, h.spared, h.spares⟩

theorem Step.Independent.apart (h : t.Independent u) (s : Session) : s.Apart t u where
  writes := List.disjoint_of_disjoint_append_right_right h.1
  spares _ hc := agreeAt_step s fun hw => h.1 hw hc
  spared _ hc := agreeAt_step s fun hw => h.2 hw hc

/-- A step that is apart from another one is the same to do after it. -/
theorem Apart.step_after (h : s.Apart t u) : AgreeOn t.writes ((s.step u).1.step t) (s.step t) :=
  step_local h.spared

/-- Steps that are apart lead to the same session in either order. -/
theorem Apart.step_comm (h : s.Apart t u) :
    ((s.step t).1.step u).1 = ((s.step u).1.step t).1 := by
  -- what one step writes the other one does not, so each cell has one author at most
  refine eq_of_agreeAt fun c => ?_
  by_cases ht : c ∈ t.writes
  · have hu : AgreeAt ((s.step t).1.step u).1 (s.step t).1 c := agreeAt_step _ (h.writes ht)
    exact hu.trans (h.step_after.2 c ht).symm
  · have hafter : AgreeAt ((s.step u).1.step t).1 (s.step u).1 c := agreeAt_step _ ht
    refine .trans ?_ hafter.symm
    by_cases hu : c ∈ u.writes
    · exact h.symm.step_after.2 c hu
    · exact (agreeAt_step _ hu).trans ((agreeAt_step s ht).trans (agreeAt_step s hu).symm)

/-- Steps that are apart can be taken in either order, with the same answers. -/
theorem Apart.run_pair_comm (h : s.Apart t u) :
    s.run [u, t] = ((s.run [t, u]).1, (s.run [t, u]).2.reverse) := by
  simp only [run, List.reverse_cons, List.reverse_nil, List.nil_append, List.cons_append,
    Prod.mk.injEq, List.cons.injEq, and_true]
  exact ⟨h.step_comm.symm, h.symm.step_after.1.symm, h.step_after.1⟩

/-! ## Steps of different signatories -/

/-- The seat that a cell is a part of. -/
def Cell.seat? : Cell → Option String
  | occupant id => some id
  | key id => some id
  | nonce id => some id
  | share id => some id
  | _ => none

theorem seat_of_mem_writes (ht : t.subject = some id) (hc : c ∈ t.writes) :
    c.seat? = some id := by
  cases t with
  | create name m key =>
    obtain rfl := Option.some.inj ht
    rcases List.mem_pair.1 hc with rfl | rfl <;> rfl
  | generateNonce name script given =>
    obtain rfl := Option.some.inj ht
    rcases List.mem_pair.1 hc with rfl | rfl <;> rfl
  | partialSign name given =>
    obtain rfl := Option.some.inj ht
    rcases List.mem_pair.1 hc with rfl | rfl <;> rfl
  | accept name given =>
    obtain rfl := Option.some.inj ht
    obtain rfl := List.mem_singleton.1 hc
    rfl
  | _ => exact absurd ht (by simp [Step.subject])

/-- The step of a signatory depends on nothing in another seat but the share that its argument
refers to. -/
theorem seat_of_mem_footprint {other : String} (ht : t.subject = some id) (hc : c ∈ t.footprint)
    (hseat : c.seat? = some other) :
    other = id ∨ t.reference? = some other ∧ c = .share other := by
  rcases List.mem_append.1 hc with hr | hw
  · right
    cases t with
    | create name m key => exact absurd hr List.not_mem_nil
    | generateNonce name script given =>
      cases given <;> simp_all [Step.reads, Cell.seat?]
    | partialSign name given =>
      cases given <;> simp_all [Step.reads, Cell.seat?]
    | accept name given =>
      simp only [Step.reads, List.mem_cons, List.mem_map, Option.mem_toList] at hr
      rcases hr with rfl | ⟨name', hname', rfl⟩
      · exact absurd hseat (by simp [Cell.seat?])
      · obtain rfl := Option.some.inj hseat
        exact ⟨hname', rfl⟩
    | _ => exact absurd ht (by simp [Step.subject])
  · exact .inl (Option.some.inj (hseat.symm.trans (seat_of_mem_writes ht hw)))

/-- The steps of two signatories are independent if neither refers to the other's seat. -/
theorem independent_of_subject_ne {other : String} (ht : t.subject = some id)
    (hu : u.subject = some other) (hne : id ≠ other) (ht' : t.reference? ≠ some other)
    (hu' : u.reference? ≠ some id) : t.Independent u := by
  constructor
  · intro c hw hc
    rcases seat_of_mem_footprint hu hc (seat_of_mem_writes ht hw) with h | ⟨h, -⟩
    · exact hne h
    · exact hu' h
  · intro c hw hc
    rcases seat_of_mem_footprint ht hc (seat_of_mem_writes hu hw) with h | ⟨h, -⟩
    · exact hne h.symm
    · exact ht' h

/-- In a session, the first step is to accept a share that the second one publishes. -/
def AcceptsShareOf (s : Session) (t u : Step) : Prop :=
  ∃ id given σ, t.reference? = some id ∧ u = .partialSign id given ∧ (s.step u).2 = .ok (.share σ)

/-- Nothing but a signature that succeeds changes the share of a seat. -/
theorem share_unchanged_or (s : Session) (u : Step) (id : String) :
    AgreeAt (s.step u).1 s (.share id) ∨
      ∃ given σ, u = .partialSign id given ∧ (s.step u).2 = .ok (.share σ) := by
  by_cases hw : .share id ∈ u.writes
  · cases u with
    | partialSign name given =>
      obtain rfl : id = name := by simpa [Step.writes] using hw
      rcases s.partialSign_cases id given with ⟨f, hs⟩ | ⟨R, p, -, -, hs⟩
      · left
        rw [step, hs]
        exact .refl s _
      · right
        exact ⟨given, _, rfl, by rw [step, hs]⟩
    | _ => simp [Step.writes] at hw
  · exact .inl (agreeAt_step s hw)

/-- What a step depends on is left as it is by the steps of another signatory, unless it is to
accept a share that is published there. -/
theorem agreeAt_footprint_of_subject_ne {other : String} (ht : t.subject = some id)
    (hu : u.subject = some other) (hne : id ≠ other) (h : ¬ s.AcceptsShareOf t u) :
    ∀ c ∈ t.footprint, AgreeAt (s.step u).1 s c := by
  intro c hc
  by_cases hw : c ∈ u.writes
  · rcases seat_of_mem_footprint ht hc (seat_of_mem_writes hu hw) with hself | ⟨href, rfl⟩
    · exact absurd hself.symm hne
    · rcases s.share_unchanged_or u other with hsame | ⟨given, σ, hsign, hσ⟩
      · exact hsame
      · exact absurd ⟨other, given, σ, href, hsign, hσ⟩ h
  · exact agreeAt_step s hw

/-- The steps of two signatories are apart if neither is to accept a share that the other one
publishes. -/
theorem apart_of_subject_ne {other : String} (ht : t.subject = some id)
    (hu : u.subject = some other) (hne : id ≠ other) (htu : ¬ s.AcceptsShareOf t u)
    (hut : ¬ s.AcceptsShareOf u t) : s.Apart t u where
  writes _ hct hcu := hne (Option.some.inj
    ((seat_of_mem_writes ht hct).symm.trans (seat_of_mem_writes hu hcu)))
  spares := agreeAt_footprint_of_subject_ne hu ht hne.symm hut
  spared := agreeAt_footprint_of_subject_ne ht hu hne htu

end JointSchnorr.Session
