import ImpC.Build.Draft
import ImpC.Proofs.Build.Run

/-!
# Computations that use nothing but a builder

A computation of type `BuildM` could in principle do anything to the environment. `BuildM.Performed` singles out those
that only make requests: carried out in a session, such a computation ends where some run of requests ends, and the
trees in its result were given out in that run. They are closed under sequencing (`BuildM.Performed.bind_keeping`).

A draft that is to be checked throughout, without ready-made nodes in it (`Draft.isPlain`), is built by such a computation
(`Draft.performed_build`), so that a draft that passes its checks is an example of a run (`Draft.exists_run`).
-/

namespace ImpC

open Session (Run)

variable {α β : Type} {options : BuildOptions} {s : Session}

/-- Carried out in the session `s`, the computation makes requests only, and the trees of its result were given out. -/
def BuildM.Performed (options : BuildOptions) (s : Session) (trees : α → List Node) (m : BuildM α) : Prop :=
  ∃ t, Run options s t ∧ (m.exec options s.env).2 = t.env ∧
    ∀ a, (m.exec options s.env).1 = .ok a → ∀ n ∈ trees a, n ∈ t.nodes

namespace BuildM

/-- A sequence goes on where its first part ended, unless that failed. -/
theorem exec_bind (options : BuildOptions) (env : Env) (m : BuildM α) (k : α → BuildM β) :
    (m >>= k).exec options env =
      match m.exec options env with
      | (.ok a, env') => (k a).exec options env'
      | (.error e, env') => (.error e, env') := by
  -- the layers of the computation unfold to a `match` on the outcome of the first part
  change (match m.exec options env with
    | (x, env') => (ExceptT.bindCont (fun a => (k a).run options) x).run env') = _
  obtain ⟨x, env'⟩ := m.exec options env
  cases x with
  | ok a => rfl
  | error e => rfl

namespace Performed

variable {trees : α → List Node} {trees' : β → List Node} {m : BuildM α} {k : α → BuildM β}

protected theorem pure {a : α} (h : ∀ n ∈ trees a, n ∈ s.nodes) : Performed options s trees (pure a) := by
  refine ⟨s, .refl, rfl, fun b hb => ?_⟩
  cases hb
  exact h

/-- Sequencing: the second part may use the trees that were at hand before, and those that the first part was given. -/
theorem bind_keeping {own : List Node} (hown : ∀ n ∈ own, n ∈ s.nodes) (hm : Performed options s trees m)
    (hk : ∀ t a, (∀ n ∈ own ++ trees a, n ∈ t.nodes) → Performed options t trees' (k a)) :
    Performed options s trees' (m >>= k) := by
  obtain ⟨t, hrun, henv, htrees⟩ := hm
  unfold Performed
  rw [exec_bind]
  generalize m.exec options s.env = outcome at henv htrees ⊢
  obtain ⟨x, env'⟩ := outcome
  obtain rfl : env' = t.env := henv
  cases x with
  | error e =>
    -- the run ends where the first part failed
    refine ⟨t, hrun, rfl, fun b hb => ?_⟩
    cases hb
  | ok a =>
    have hown' : ∀ n ∈ own, n ∈ t.nodes := fun n hn => hrun.mem_nodes (hown n hn)
    obtain ⟨u, hrun', henv', htrees'⟩ := hk t a (List.forall_mem_append.2 ⟨hown', htrees a rfl⟩)
    exact ⟨u, hrun.trans hrun', henv', htrees'⟩

/-- Sequencing, where the second part uses only what the first part was given. -/
protected theorem bind (hm : Performed options s trees m)
    (hk : ∀ t a, (∀ n ∈ trees a, n ∈ t.nodes) → Performed options t trees' (k a)) :
    Performed options s trees' (m >>= k) :=
  hm.bind_keeping (fun _ hn => absurd hn List.not_mem_nil) hk

/-- A request for trees that were given out before. -/
theorem request (q : Request) (own : ∀ n ∈ q.parts, n ∈ s.nodes) : Performed options s (fun n => [n]) q.make := by
  refine ⟨s.after options q, .request .refl q own, rfl, fun n hn m hm => ?_⟩
  obtain rfl := List.mem_singleton.1 hm
  -- carrying the request out is what the session after it was made from
  have hanswer : (q.answer options s.env).1 = .ok m := hn
  rw [Session.nodes_after, hanswer]
  exact List.mem_append_right _ (List.mem_singleton.2 rfl)

end Performed

end BuildM

open BuildM (Performed)

/-! ### Drafts -/

namespace Draft

mutual

/-- The draft is to be checked throughout: no node in it is taken as it is. -/
def isPlain : Draft → Bool
  | .construct c => isPlainConstruct c
  | .binary _ l r => l.isPlain && r.isPlain
  | .given .. | .built _ => false

/-- The parts of the construct are to be checked throughout. -/
def isPlainConstruct : Construct Draft → Bool
  | .int _ | .float _ | .text _ | .var _ | .read _ | .declare _ => true
  | .binary _ l r => l.isPlain && r.isPlain
  | .assign _ v | .print v | .ret v => v.isPlain
  | .call _ ds | .block ds => arePlain ds
  | .branch c a none => c.isPlain && a.isPlain
  | .branch c a (some b) => c.isPlain && a.isPlain && b.isPlain
  | .loop c b => c.isPlain && b.isPlain
  | .count i c u b => i.isPlain && c.isPlain && u.isPlain && b.isPlain
  | .function _ ps b r => arePlain ps && b.isPlain && r.isPlain

/-- The drafts are to be checked throughout. -/
def arePlain : List Draft → Bool
  | [] => true
  | d :: ds => d.isPlain && arePlain ds

end

mutual

/-- **Drafts are built by requests.** Building a draft that is to be checked throughout makes requests only. -/
theorem performed_build (options : BuildOptions) (d : Draft) (hd : d.isPlain = true) (s : Session) :
    Performed options s (fun n => [n]) d.build := by
  match d with
  | .construct c =>
    refine .bind (performed_buildParts options c hd s) fun t c' hc' => ?_
    exact .request (.construct c') hc'
  | .binary token l r =>
    obtain ⟨hl, hr⟩ := Bool.and_eq_true_iff.1 hd
    refine .bind (performed_build options l hl s) fun t l' hl' => ?_
    refine .bind_keeping hl' (performed_build options r hr t) fun u r' hlr' => ?_
    exact .request (.binary token l' r') hlr'

/-- The parts of a construct are built by requests, and given out before the construct is. -/
theorem performed_buildParts (options : BuildOptions) (c : Construct Draft) (hc : isPlainConstruct c = true)
    (s : Session) :
    Performed options s Construct.parts (buildParts c) := by
  -- one step for each part, from left to right; what was given out on the left is kept for the construct
  match c with
  | .int _ | .float _ | .text _ | .var _ | .read _ | .declare _ => exact .pure nofun
  | .binary op l r =>
    obtain ⟨hl, hr⟩ := Bool.and_eq_true_iff.1 hc
    refine .bind (performed_build options l hl s) fun t l' hl' => ?_
    refine .bind_keeping hl' (performed_build options r hr t) fun u r' hlr' => ?_
    exact .pure hlr'
  | .assign x v | .print v | .ret v =>
    exact .bind (performed_build options v hc s) fun t v' hv' => .pure hv'
  | .call f ds | .block ds =>
    exact .bind (performed_buildAll options ds hc s) fun t ns hns => .pure hns
  | .branch c a none =>
    obtain ⟨hc, ha⟩ := Bool.and_eq_true_iff.1 hc
    refine .bind (performed_build options c hc s) fun t c' hc' => ?_
    refine .bind_keeping hc' (performed_build options a ha t) fun u a' hca' => ?_
    exact .pure hca'
  | .branch c a (some b) =>
    obtain ⟨hca, hb⟩ := Bool.and_eq_true_iff.1 hc
    obtain ⟨hc, ha⟩ := Bool.and_eq_true_iff.1 hca
    refine .bind (performed_build options c hc s) fun t c' hc' => ?_
    refine .bind_keeping hc' (performed_build options a ha t) fun u a' hca' => ?_
    refine .bind_keeping hca' (performed_build options b hb u) fun w b' hcab' => ?_
    exact .pure hcab'
  | .loop c b =>
    obtain ⟨hc, hb⟩ := Bool.and_eq_true_iff.1 hc
    refine .bind (performed_build options c hc s) fun t c' hc' => ?_
    refine .bind_keeping hc' (performed_build options b hb t) fun u b' hcb' => ?_
    exact .pure hcb'
  | .count i c u b =>
    obtain ⟨hicu, hb⟩ := Bool.and_eq_true_iff.1 hc
    obtain ⟨hic, hu⟩ := Bool.and_eq_true_iff.1 hicu
    obtain ⟨hi, hc⟩ := Bool.and_eq_true_iff.1 hic
    refine .bind (performed_build options i hi s) fun s₁ i' hi' => ?_
    refine .bind_keeping hi' (performed_build options c hc s₁) fun s₂ c' hic' => ?_
    refine .bind_keeping hic' (performed_build options u hu s₂) fun s₃ u' hicu' => ?_
    refine .bind_keeping hicu' (performed_build options b hb s₃) fun s₄ b' hicub' => ?_
    exact .pure hicub'
  | .function f ps b r =>
    obtain ⟨hpsb, hr⟩ := Bool.and_eq_true_iff.1 hc
    obtain ⟨hps, hb⟩ := Bool.and_eq_true_iff.1 hpsb
    refine .bind (performed_buildAll options ps hps s) fun t ps' hps' => ?_
    refine .bind_keeping hps' (performed_build options b hb t) fun u b' hpsb' => ?_
    refine .bind_keeping hpsb' (performed_build options r hr u) fun w r' hpsbr' => ?_
    rw [List.append_assoc] at hpsbr'
    exact .pure hpsbr'

/-- Drafts are built by requests one after the other. -/
theorem performed_buildAll (options : BuildOptions) (ds : List Draft) (hds : arePlain ds = true) (s : Session) :
    Performed options s id (buildAll ds) := by
  match ds with
  | [] => exact .pure nofun
  | d :: ds =>
    obtain ⟨hd, hds⟩ := Bool.and_eq_true_iff.1 hds
    refine .bind (performed_build options d hd s) fun t n hn => ?_
    refine .bind_keeping hn (performed_buildAll options ds hds t) fun u ns hns => ?_
    exact .pure hns

end

/-- A draft that passes its checks gives a run, and the tree it is built to is given out in it. -/
theorem exists_run (options : BuildOptions) (d : Draft) (hd : d.isPlain = true) (s : Session)
    (hok : (d.build.exec options s.env).1.isOk = true) :
    ∃ t root, Run options s t ∧ d.build.exec options s.env = (.ok root, t.env) ∧ root ∈ t.nodes := by
  obtain ⟨t, hrun, henv, htrees⟩ := performed_build options d hd s
  generalize d.build.exec options s.env = outcome at hok henv htrees ⊢
  obtain ⟨x, env'⟩ := outcome
  obtain rfl : env' = t.env := henv
  cases x with
  | error e => cases hok
  | ok root => exact ⟨t, root, hrun, rfl, htrees root rfl root (List.mem_singleton.2 rfl)⟩

end Draft

end ImpC
