import MonkeyLang.Proofs.OrderedMap
import MonkeyLang.Proofs.Run
import MonkeyLang.Proofs.Store.Growth

/-!
Environments through histories of operations: what a lookup finds is decided by what was bound when
and where, and by which environment was made inside which.
-/

namespace MonkeyLang.Store

/-- What has been done with environments, `n` of which have been made. They are counted in the order
of their making. -/
inductive History : Nat → Type
  | start : History 0
  | fresh {n : Nat} (past : History n) : History (n + 1)
  | enclosed {n : Nat} (past : History n) (outer : Fin n) : History (n + 1)
  | set {n : Nat} (past : History n) (env : Fin n) (name : String) (value : Value) : History n
  | get {n : Nat} (past : History n) (env : Fin n) (name : String) : History n

namespace History

/-- Does all that once more. Gives the environments in the order of their making, and what the
lookups have found. -/
def run {n : Nat} : History n → Run (Vector Address n × List (Option Value))
  | start => return (#v[], [])
  | fresh past => do
    let (envs, found) ← past.run
    return (envs.push (← Run.newEnvironment), found)
  | enclosed past outer => do
    let (envs, found) ← past.run
    return (envs.push (← Run.enclose envs[outer]), found)
  | set past env name value => do
    let (envs, found) ← past.run
    Run.bindName envs[env] name value
    return (envs, found)
  | get past env name => do
    let (envs, found) ← past.run
    return (envs, found ++ [← Run.lookup? envs[env] name])

/-- The environment inside which an environment was made. -/
def outer? {n : Nat} : History n → Nat → Option Nat
  | start, _ => none
  | @fresh m past, env => if env = m then none else past.outer? env
  | @enclosed m past outer, env => if env = m then some outer else past.outer? env
  | set past .., env | get past .., env => past.outer? env

/-- What was bound in the frame of an environment, in the order in which it was. -/
def bound {n : Nat} : History n → Nat → List (String × Value)
  | start, _ => []
  | fresh past, env | enclosed past _, env | get past .., env => past.bound env
  | set past written name value, env =>
    if env = written then past.bound env ++ [(name, value)] else past.bound env

/-- What was bound to the name last in the frame of an environment. -/
def last? {n : Nat} (past : History n) (name : String) (env : Nat) : Option Value :=
  OrderedMap.last? name (past.bound env)

/-- An environment, the one inside which it was made, and so on to one that was made by itself. -/
inductive Chain {n : Nat} (past : History n) : Nat → List Nat → Prop
  | outermost {env : Nat} : past.outer? env = none → Chain past env [env]
  | inside {env outer : Nat} {chain : List Nat} :
      past.outer? env = some outer → Chain past outer chain → Chain past env (env :: chain)

/-- Every lookup has found what was bound last before it in the nearest frame with the name. -/
inductive Answers : {n : Nat} → History n → List (Option Value) → Prop
  | start : Answers .start []
  | fresh {n : Nat} {past : History n} {found : List (Option Value)} :
      Answers past found → Answers past.fresh found
  | enclosed {n : Nat} {past : History n} {found : List (Option Value)} {outer : Fin n} :
      Answers past found → Answers (past.enclosed outer) found
  | set {n : Nat} {past : History n} {found : List (Option Value)} {env : Fin n} {name : String}
      {value : Value} : Answers past found → Answers (past.set env name value) found
  | get {n : Nat} {past : History n} {found : List (Option Value)} {env : Fin n} {name : String}
      {chain : List Nat} : Answers past found → past.Chain env chain →
      Answers (past.get env name) (found ++ [chain.findSome? (past.last? name)])

variable {n : Nat} {past : History n} {env : Nat} {chain : List Nat}

theorem outer?_lt {outer : Nat} (h : past.outer? env = some outer) : outer < env ∧ env < n := by
  induction past with
  | start => cases h
  | fresh past ih =>
    rw [outer?] at h
    split at h
    · cases h
    · obtain ⟨hlt, hlt'⟩ := ih h
      exact ⟨hlt, Nat.lt_succ_of_lt hlt'⟩
  | enclosed past inner ih =>
    rw [outer?] at h
    split at h
    · next he =>
      cases h
      exact ⟨he ▸ inner.isLt, he ▸ Nat.lt_succ_self _⟩
    · obtain ⟨hlt, hlt'⟩ := ih h
      exact ⟨hlt, Nat.lt_succ_of_lt hlt'⟩
  | set past _ _ _ ih | get past _ _ ih => exact ih h

/-- Nothing is bound in a frame that is not there. -/
theorem bound_eq_nil (h : n ≤ env) : past.bound env = [] := by
  induction past with
  | start => rfl
  | fresh past ih | enclosed past _ ih => exact ih (Nat.le_of_succ_le h)
  | set past written name value ih =>
    rw [bound, if_neg (Nat.ne_of_gt (Nat.lt_of_lt_of_le written.isLt h)), ih h]
  | get past _ _ ih => exact ih h

section Chains

/-- Environments are made inside ones that were there before, so that no chain comes back to where
it was. -/
theorem exists_chain (past : History n) (env : Nat) : ∃ chain, past.Chain env chain := by
  induction env using Nat.strongRecOn with
  | ind env ih =>
    cases h : past.outer? env with
    | none => exact ⟨[env], .outermost h⟩
    | some outer =>
      obtain ⟨chain, hchain⟩ := ih outer (outer?_lt h).1
      exact ⟨env :: chain, .inside h hchain⟩

theorem Chain.unique {other : List Nat} (h : past.Chain env chain) (h' : past.Chain env other) :
    chain = other := by
  induction h generalizing other with
  | outermost ho =>
    cases h' with
    | outermost => rfl
    | inside ho' => rw [ho] at ho'; cases ho'
  | inside ho _ ih =>
    cases h' with
    | outermost ho' => rw [ho] at ho'; cases ho'
    | inside ho' h' =>
      rw [ho] at ho'
      obtain rfl := Option.some.inj ho'
      rw [ih h']

theorem Chain.le (h : past.Chain env chain) : ∀ frame ∈ chain, frame ≤ env := by
  induction h with
  | outermost => simp
  | inside ho _ ih =>
    refine List.forall_mem_cons.mpr ⟨Nat.le_refl _, fun frame hm ↦ ?_⟩
    exact Nat.le_trans (ih frame hm) (Nat.le_of_lt (outer?_lt ho).1)

theorem Chain.pairwise (h : past.Chain env chain) : chain.Pairwise (· > ·) := by
  induction h with
  | outermost => simp
  | inside ho h ih =>
    refine List.pairwise_cons.mpr ⟨fun frame hm ↦ ?_, ih⟩
    exact Nat.lt_of_le_of_lt (h.le frame hm) (outer?_lt ho).1

theorem chain_iff {m : Nat} {other : History m}
    (houter : ∀ e ≤ env, other.outer? e = past.outer? e) :
    other.Chain env chain ↔ past.Chain env chain := by
  have hkept : ∀ {i j : Nat} {a : History i} {b : History j} {env : Nat} {chain : List Nat},
      (∀ e ≤ env, b.outer? e = a.outer? e) → a.Chain env chain → b.Chain env chain := by
    intro i j a b env chain houter h
    induction h with
    | outermost ho => exact .outermost ((houter _ (Nat.le_refl _)).trans ho)
    | inside ho _ ih =>
      refine .inside ((houter _ (Nat.le_refl _)).trans ho) (ih fun e he ↦ houter e ?_)
      exact Nat.le_trans he (Nat.le_of_lt (outer?_lt ho).1)
  exact ⟨hkept fun e he ↦ (houter e he).symm, hkept houter⟩

theorem chain_set {written : Fin n} {name : String} {value : Value} :
    (past.set written name value).Chain env chain ↔ past.Chain env chain := chain_iff fun _ _ ↦ rfl

theorem chain_get {asked : Fin n} {name : String} :
    (past.get asked name).Chain env chain ↔ past.Chain env chain := chain_iff fun _ _ ↦ rfl

theorem chain_fresh (h : env < n) : past.fresh.Chain env chain ↔ past.Chain env chain :=
  chain_iff fun _ he ↦ if_neg (Nat.ne_of_lt (Nat.lt_of_le_of_lt he h))

theorem chain_enclosed {outer : Fin n} (h : env < n) :
    (past.enclosed outer).Chain env chain ↔ past.Chain env chain :=
  chain_iff fun _ he ↦ if_neg (Nat.ne_of_lt (Nat.lt_of_le_of_lt he h))

theorem Chain.eq_of_fresh (h : past.fresh.Chain n chain) : chain = [n] := by
  cases h with
  | outermost => rfl
  | inside ho => rw [outer?, if_pos rfl] at ho; cases ho

theorem Chain.eq_of_enclosed {outer : Fin n} (h : (past.enclosed outer).Chain n chain) :
    ∃ others, chain = n :: others ∧ past.Chain outer others := by
  cases h with
  | outermost ho => rw [outer?, if_pos rfl] at ho; cases ho
  | inside ho h =>
    rw [outer?, if_pos rfl] at ho
    obtain rfl := Option.some.inj ho
    exact ⟨_, rfl, (chain_enclosed outer.isLt).mp h⟩

end Chains

theorem last?_eq_none {name : String} :
    past.last? name env = none ↔ name ∉ (past.bound env).map Prod.fst := OrderedMap.last?_eq_none

/-- An environment that is made gets the next address. -/
theorem forall_push {envs : Vector Address n} {base new : Address}
    (henvs : ∀ env : Fin n, envs[env] = base + env) (hnew : new = base + n) :
    ∀ env : Fin (n + 1), (envs.push new)[env] = base + env := by
  intro env
  change (envs.push new)[env.val] = base + env
  rw [Vector.getElem_push]
  split
  · next hlt => exact henvs ⟨env, hlt⟩
  · next hge => rw [hnew, Nat.le_antisymm (Nat.le_of_lt_succ env.isLt) (Nat.le_of_not_lt hge)]

/-- The frames that were made in the past stand in the store from an address on, with what was bound
in them and with the frames around them. -/
structure Describes (past : History n) (base : Address) (store : Store) : Prop where
  size : store.nextAddress = base + n
  sees {env : Nat} {chain : List Nat} : env < n → past.Chain env chain →
    store.chain (base + env) = chain.map (base + ·)
  frame {env : Nat} : env < n → ∃ frame, store.frame? (base + env) = some frame ∧
    OrderedMap.Lists (past.bound env) frame.bindings

namespace Describes

variable {base : Address} {store : Store}

theorem start (store : Store) : start.Describes store.nextAddress store :=
  ⟨rfl, fun h ↦ absurd h (Nat.not_lt_zero _), fun h ↦ absurd h (Nat.not_lt_zero _)⟩

theorem addFrame {next : History (n + 1)} (h : past.Describes base store) {outer : List Address}
    (hchain : ∀ {env chain}, env < n → next.Chain env chain → past.Chain env chain)
    (hbound : next.bound = past.bound)
    (hnew : ∀ {chain}, next.Chain n chain → chain.map (base + ·) = (base + n) :: outer) :
    next.Describes base (store.addFrame outer) where
  size := by rw [nextAddress_addFrame, h.size, Nat.add_assoc]
  sees {env chain} hlt hc := by
    rcases Nat.lt_succ_iff_lt_or_eq.mp hlt with hlt | rfl
    · have hold : base + env ≠ store.nextAddress :=
        h.size ▸ Nat.ne_of_lt (Nat.add_lt_add_left hlt base)
      rw [← h.sees hlt (hchain hlt hc), Store.chain, Store.chain, frame?_addFrame, if_neg hold]
    · rw [hnew hc, Store.chain, frame?_addFrame, if_pos h.size.symm]
      rfl
  frame {env} hlt := by
    rw [hbound]
    rcases Nat.lt_succ_iff_lt_or_eq.mp hlt with hlt | rfl
    · have hold : base + env ≠ store.nextAddress :=
        h.size ▸ Nat.ne_of_lt (Nat.add_lt_add_left hlt base)
      rw [frame?_addFrame, if_neg hold]
      exact h.frame hlt
    · rw [frame?_addFrame, if_pos h.size.symm, bound_eq_nil (Nat.le_refl _)]
      exact ⟨_, rfl, .nil⟩

theorem fresh (h : past.Describes base store) : past.fresh.Describes base (store.addFrame []) :=
  h.addFrame (fun hlt ↦ (chain_fresh hlt).mp) rfl fun hc ↦ by rw [hc.eq_of_fresh]; rfl

theorem enclosed (h : past.Describes base store) (outer : Fin n) :
    (past.enclosed outer).Describes base (store.enclose (base + outer)) := by
  refine h.addFrame (fun hlt ↦ (chain_enclosed hlt).mp) rfl fun hc ↦ ?_
  obtain ⟨others, rfl, hothers⟩ := hc.eq_of_enclosed
  rw [List.map_cons, h.sees outer.isLt hothers]

theorem set (h : past.Describes base store) (written : Fin n) (name : String) (value : Value) :
    (past.set written name value).Describes base (store.bind (base + written) name value) where
  size := by rw [nextAddress_bind, h.size]
  sees hlt hc := by rw [chain_bind, h.sees hlt (chain_set.mp hc)]
  frame {env} hlt := by
    obtain ⟨frame, hframe, hlists⟩ := h.frame hlt
    rw [frame?_bind, hframe, bound, Option.map_some]
    refine ⟨_, rfl, ?_⟩
    by_cases henv : env = written
    · rw [if_pos henv, if_pos (henv ▸ rfl)]
      exact hlists.insert name value
    · rw [if_neg henv, if_neg fun he ↦ henv (Nat.add_left_cancel he).symm]
      exact hlists

theorem get (h : past.Describes base store) (asked : Fin n) (name : String) :
    (past.get asked name).Describes base store where
  size := h.size
  sees hlt hc := h.sees hlt (chain_get.mp hc)
  frame hlt := h.frame hlt

theorem local? (h : past.Describes base store) (name : String) (hlt : env < n) :
    store.local? name (base + env) = past.last? name env := by
  obtain ⟨frame, hframe, hlists⟩ := h.frame hlt
  rw [Store.local?, hframe, Option.bind_some, hlists.find?, last?]

theorem get? (h : past.Describes base store) (name : String) (hlt : env < n)
    (hchain : past.Chain env chain) :
    store.get? (base + env) name = chain.findSome? (past.last? name) := by
  rw [Store.get?, h.sees hlt hchain, List.findSome?_map]
  exact findSome?_congr fun frame hm ↦ h.local? name (Nat.lt_of_le_of_lt (hchain.le frame hm) hlt)

end Describes

/-- What was done in the past, done again. -/
theorem run_describes (past : History n) (machine : Machine) :
    ∃ envs found after, past.run machine = .ok (envs, found) after ∧
      (∀ env : Fin n, envs[env] = machine.store.nextAddress + env) ∧
      past.Describes machine.store.nextAddress after.store ∧ past.Answers found := by
  induction past with
  | start => exact ⟨#v[], [], machine, rfl, fun env ↦ env.elim0, .start machine.store, .start⟩
  | @fresh n past ih =>
    obtain ⟨envs, found, after, hrun, henvs, hdescribes, hfound⟩ := ih
    refine ⟨envs.push after.store.nextAddress, found,
      { after with store := after.store.addFrame [] }, ?_, ?_, hdescribes.fresh, hfound.fresh⟩
    · rw [run, Run.run_bind, hrun]
      rfl
    · exact forall_push henvs hdescribes.size
  | enclosed past outer ih =>
    obtain ⟨envs, found, after, hrun, henvs, hdescribes, hfound⟩ := ih
    refine ⟨envs.push after.store.nextAddress, found,
      { after with store := after.store.enclose _ }, ?_, ?_, hdescribes.enclosed outer,
      hfound.enclosed⟩
    · rw [run, Run.run_bind, hrun, ← henvs]
      rfl
    · exact forall_push henvs hdescribes.size
  | set past written name value ih =>
    obtain ⟨envs, found, after, hrun, henvs, hdescribes, hfound⟩ := ih
    refine ⟨envs, found, { after with store := after.store.bind _ name value }, ?_, henvs,
      hdescribes.set written name value, hfound.set⟩
    rw [run, Run.run_bind, hrun, ← henvs]
    rfl
  | get past asked name ih =>
    obtain ⟨envs, found, after, hrun, henvs, hdescribes, hfound⟩ := ih
    obtain ⟨chain, hchain⟩ := past.exists_chain asked
    refine ⟨envs, _, after, ?_, henvs, hdescribes.get asked name, hfound.get hchain⟩
    rw [run, Run.run_bind, hrun, ← hdescribes.get? name asked.isLt hchain, ← henvs]
    rfl

/-- What can be seen of the environments is what was done with them. -/
structure Agrees (past : History n) (envs : Vector Address n) (store : Store) : Prop where
  /-- Every environment has a chain, which ends, and in which none stands twice. -/
  chain (env : Fin n) : ∃! chain, past.Chain env chain ∧ chain.Pairwise (· > ·)
  /-- A lookup finds what was bound last in the nearest frame of the chain in which the name was
  bound at all. -/
  lookup {env : Fin n} {chain : List Nat} (name : String) : past.Chain env chain →
    store.get? envs[env] name = chain.findSome? (past.last? name)
  /-- It finds nothing only if the name was bound in no frame of the chain. -/
  missing {env : Fin n} {chain : List Nat} (name : String) : past.Chain env chain →
    (store.get? envs[env] name = none ↔
      ∀ frame ∈ chain, name ∉ (past.bound frame).map Prod.fst)
  /-- To bind a name changes no lookup of another one, and none past whose chain the frame is. -/
  others {env written : Fin n} {chain : List Nat} {name other : String} (value : Value) :
    past.Chain env chain → (other ≠ name ∨ written.val ∉ chain) →
    (store.bind envs[written] name value).get? envs[env] other = store.get? envs[env] other
  /-- A frame has each of its names once, in the order in which they were bound first. -/
  frame (env : Fin n) : ∃ frame, store.frame? envs[env] = some frame ∧
    frame.bindings.keys.Nodup ∧
    frame.bindings.keys = ((past.bound env).map Prod.fst).eraseDups

/-- However environments are made, bound in and looked up in, every lookup finds what was bound
last before it in the nearest frame with the name, wherever the binding came from; and so does every
lookup afterwards. -/
theorem run_agrees (past : History n) (machine : Machine) :
    ∃ envs found after, past.run machine = .ok (envs, found) after ∧ past.Answers found ∧
      past.Agrees envs after.store := by
  obtain ⟨envs, found, after, hrun, henvs, hdescribes, hfound⟩ := past.run_describes machine
  have hlookup : ∀ {env : Fin n} {chain : List Nat} (name : String), past.Chain env chain →
      after.store.get? envs[env] name = chain.findSome? (past.last? name) := by
    intro env chain name hchain
    rw [henvs]
    exact hdescribes.get? name env.isLt hchain
  refine ⟨envs, found, after, hrun, hfound, fun env ↦ ?_, hlookup, fun {env chain} name hchain ↦ ?_,
    fun {env written chain name other} value hchain hother ↦ ?_, fun env ↦ ?_⟩
  · obtain ⟨chain, hchain⟩ := past.exists_chain env
    exact ⟨chain, ⟨hchain, hchain.pairwise⟩, fun other hother ↦ hother.1.unique hchain⟩
  · rw [hlookup name hchain, List.findSome?_eq_none_iff]
    exact forall₂_congr fun frame _ ↦ last?_eq_none
  · refine get?_bind_of_not_seen (hother.imp id fun hm hseen ↦ hm ?_)
    rw [henvs, henvs, hdescribes.sees env.isLt hchain] at hseen
    obtain ⟨frame, hframe, he⟩ := List.mem_map.mp hseen
    exact Nat.add_left_cancel he ▸ hframe
  · rw [henvs]
    obtain ⟨frame, hframe, hlists⟩ := hdescribes.frame env.isLt
    exact ⟨frame, hframe, hlists.distinct, hlists.keys⟩

/-- An environment sees what is bound around it after it was made, up to a binding of its own. -/
example : ∃ envs after,
    (((((start.fresh.enclosed 0).set 0 "late" (.integer 3)).get 1 "late").set 1 "late" .null).get 1
      "late").run .initial = .ok (envs, [some (.integer 3), some .null]) after := ⟨_, _, rfl⟩

end History

end MonkeyLang.Store
