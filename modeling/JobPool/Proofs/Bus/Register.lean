/-
JobPool.Proofs.Bus.Register — a bus keeps its topics as a finite map does.

Read topic by topic, each call on a bus answers and does what it answers and does on the
plain register (`answer_register`); whole sequences of calls follow (`answerAll_register`).
The laws of `Bus.Lawful` are then laws of the register, and the listings are right because
every chain stands under the topic of its spec (`Bus.Keyed`), whatever calls came before.

  §1 Chains after a call
  §2 Calls on the register
  §3 Laws
  §4 Pools and managers on a bus
-/
import JobPool.Bus.Register
import JobPool.Manager

namespace JobPool

variable {L C : Type}

/-! ## §1 Chains after a call -/

namespace Register

theorem ensure_ensure (r : Register L C) (specs specs' : List TopicSpec) :
    (r.ensure specs).ensure specs' = r.ensure (specs ++ specs') := by
  funext topic
  simp [ensure, Option.or_assoc, List.find?_append, Option.map_or]

/-- A topic that is there keeps its chain. -/
theorem ensure_of_some {r : Register L C} {topic : String} {chain : Chain L C}
    (there : r topic = some chain) (specs : List TopicSpec) :
    r.ensure specs topic = some chain := by
  rw [ensure, there, Option.some_or]

theorem isSome_ensure {r : Register L C} {specs : List TopicSpec} {spec : TopicSpec}
    (mem : spec ∈ specs) : (r.ensure specs spec.topic).isSome = true := by
  have found : (specs.find? (·.topic == spec.topic)).isSome = true :=
    List.find?_isSome.2 ⟨spec, mem, beq_self_eq_true _⟩
  simp [ensure, found]

/-- Where all the topics are there, there is nothing to make sure of. -/
theorem ensure_of_all {r : Register L C} {specs : List TopicSpec}
    (all : ∀ spec ∈ specs, (r spec.topic).isSome = true) : r.ensure specs = r := by
  funext topic
  cases there : r topic with
  | some chain => exact ensure_of_some there specs
  | none =>
    have missing : specs.find? (·.topic == topic) = none := by
      refine List.find?_eq_none.2 fun spec mem same => ?_
      have found := all spec mem
      rw [eq_of_beq same, there] at found
      cases found
    rw [ensure, there, missing]
    rfl

end Register

namespace Bus

variable {b : Bus L C}

theorem chain?_empty : (empty : Bus L C).chain? = Register.empty := rfl

theorem hasTopic_eq (b : Bus L C) (topic : String) : b.hasTopic topic = (b.chain? topic).isSome :=
  rfl

theorem chain?_add (spec : TopicSpec) (absent : b.hasTopic spec.topic = false) :
    (b.add spec).2.chain? = Register.set b.chain? spec.topic (some { spec }) := by
  funext topic
  rw [add, absent]
  exact NameMap.get?_insert ..

theorem ensure_of_some {spec : TopicSpec} {chain : Chain L C}
    (there : b.chain? spec.topic = some chain) : b.ensure spec = (chain.spec, b) := by
  rw [ensure, there]

theorem chain?_ensure (b : Bus L C) (spec : TopicSpec) :
    (b.ensure spec).2.chain? = Register.ensure b.chain? [spec] := by
  funext topic
  cases there : b.chain? spec.topic with
  | some chain =>
    have all : ∀ s ∈ [spec], (b.chain? s.topic).isSome = true := by simp [there]
    rw [ensure_of_some there, Register.ensure_of_all all]
  | none =>
    simp only [ensure, there]
    show (b.topics.insert spec.topic { spec }).get? topic = _
    rw [NameMap.get?_insert]
    by_cases own : topic = spec.topic
    · subst own
      simp [Register.ensure, there]
    · have other : (spec.topic == topic) = false := beq_false_of_ne (Ne.symm own)
      simp [Register.ensure, own, other, chain?]

theorem chain?_foldl_ensure (specs : List TopicSpec) (b : Bus L C) :
    (specs.foldl (fun b spec => (b.ensure spec).2) b).chain? = Register.ensure b.chain? specs := by
  induction specs generalizing b with
  | nil => exact (Register.ensure_of_all (by simp)).symm
  | cons spec specs ih =>
    rw [List.foldl_cons, ih, chain?_ensure, Register.ensure_ensure]
    rfl

theorem chain?_ensureLifecycle (b : Bus L C) :
    b.ensureLifecycle.chain? = Register.ensure b.chain? Topic.lifecycle :=
  chain?_foldl_ensure ..

/-- Where all lifecycle topics are there, making sure of them leaves the bus as it is. -/
theorem ensureLifecycle_of_all
    (all : ∀ spec ∈ Topic.lifecycle, (b.chain? spec.topic).isSome = true) :
    b.ensureLifecycle = b := by
  unfold ensureLifecycle
  generalize Topic.lifecycle = specs at all
  induction specs with
  | nil => rfl
  | cons spec specs ih =>
    obtain ⟨first, rest⟩ := List.forall_mem_cons.1 all
    obtain ⟨chain, there⟩ := Option.isSome_iff_exists.1 first
    rw [List.foldl_cons, ensure_of_some there]
    exact ih rest

theorem chain?_delete (b : Bus L C) (topic : String) :
    (b.delete topic).2.chain? = Register.set b.chain? topic none :=
  funext fun t => NameMap.get?_erase b.topics topic t

theorem chain?_attach (b : Bus L C) (topic : String) (f : Chain L C → Chain L C) (t : String) :
    (b.attach topic f).2.chain? t = if t = topic then (b.chain? t).map f else b.chain? t := by
  unfold attach
  split
  · exact NameMap.get?_modify ..
  · rename_i absent
    have unset : b.chain? topic = none := Option.not_isSome_iff_eq_none.1 absent
    split
    · rename_i own
      rw [own, unset]
      rfl
    · rfl

theorem attach_register (b : Bus L C) (topic : String) (f : Chain L C → Chain L C) :
    (Reply.ofResult (b.attach topic f).1, (b.attach topic f).2.chain?) =
      Register.attach b.chain? [topic] fun _ => f := by
  have chains := funext (b.chain?_attach topic f)
  cases there : b.chain? topic with
  | none =>
    have absent : b.hasTopic topic = false := congrArg Option.isSome there
    simp [Register.attach, there, attach, absent, Reply.ofResult]
  | some chain =>
    have present : b.hasTopic topic = true := congrArg Option.isSome there
    rw [chains]
    simp [Register.attach, there, attach, present, Reply.ofResult]

theorem addClauses_nil (chain : Chain L C) : Chain.addClauses [] chain = chain := by
  rw [Chain.addClauses, List.append_nil]

theorem addClauses_addClauses (qs qs' : List C) (chain : Chain L C) :
    Chain.addClauses qs' (Chain.addClauses qs chain) = Chain.addClauses (qs ++ qs') chain := by
  simp [Chain.addClauses]

/-- Each topic gets the clauses listed for it, in the order of the list. -/
theorem chain?_foldl_attach (subs : List (String × List C)) (b : Bus L C) (t : String) :
    (subs.foldl (fun b s => (b.attach s.1 (Chain.addClauses s.2)).2) b).chain? t =
      (b.chain? t).map (Chain.addClauses ((subs.filter (·.1 == t)).flatMap (·.2))) := by
  induction subs generalizing b with
  | nil => cases there : b.chain? t <;> simp [there, addClauses_nil]
  | cons s subs ih =>
    rw [List.foldl_cons, ih, chain?_attach]
    by_cases own : t = s.1
    · subst own
      cases b.chain? s.1 <;> simp [addClauses_addClauses]
    · have other : (s.1 == t) = false := beq_false_of_ne (Ne.symm own)
      simp [own, other]

theorem subscribe_register (b : Bus L C) (subs : List (String × List C)) :
    (Reply.ofResult (b.subscribe subs).1, (b.subscribe subs).2.chain?) =
      Register.attach b.chain? (subs.map (·.1)) fun t =>
        Chain.addClauses ((subs.filter (·.1 == t)).flatMap (·.2)) := by
  have missing : (subs.map (·.1)).find? (fun topic => (b.chain? topic).isNone) =
      (subs.find? fun s => !b.hasTopic s.1).map (·.1) := by
    rw [List.find?_map]
    congr 2
    funext s
    simp [hasTopic_eq]
  unfold Register.attach Bus.subscribe
  rw [missing]
  cases subs.find? fun s => !b.hasTopic s.1 with
  | some s => rfl
  | none =>
    refine congrArg (Prod.mk Reply.done) (funext fun t => ?_)
    rw [chain?_foldl_attach]
    split
    · rfl
    · rename_i unlisted
      have unasked : subs.filter (·.1 == t) = [] := by
        refine List.filter_eq_nil_iff.2 fun s mem same => unlisted ?_
        exact eq_of_beq same ▸ List.mem_map_of_mem mem
      rw [unasked]
      cases b.chain? t <;> simp [addClauses_nil]

end Bus

/-! ## §2 Calls on the register -/

namespace Bus

/-- A call on a bus is that call on its register. -/
theorem answer_register (b : Bus L C) (call : BusCall L C) :
    ((b.answer call).1, (b.answer call).2.chain?) = Register.answer b.chain? call := by
  cases call with
  | add spec =>
    cases there : b.hasTopic spec.topic with
    | true =>
      have there' : (b.chain? spec.topic).isSome = true := there
      simp [answer, Register.answer, add, there, there']
    | false =>
      have absent : (b.chain? spec.topic).isSome = false := there
      have chains := chain?_add spec there
      simp only [add, there, Bool.false_eq_true, if_false] at chains
      simp [answer, Register.answer, add, there, absent, chains]
  | ensure spec =>
    simp only [answer, Register.answer, chain?_ensure]
    cases there : b.chain? spec.topic <;> simp [ensure, there]
  | ensureLifecycle => simp only [answer, Register.answer, chain?_ensureLifecycle]
  | deleteEvent spec => exact congrArg (Prod.mk _) (b.chain?_delete spec.topic)
  | deleteTopic topic => exact congrArg (Prod.mk _) (b.chain?_delete topic)
  | onEvent spec q => exact b.attach_register spec.topic _
  | onTopic topic q => exact b.attach_register topic _
  | listenEvent spec l => exact b.attach_register spec.topic _
  | listenTopic topic l => exact b.attach_register topic _
  | subscribe subs => exact b.subscribe_register subs

theorem answerAll_register : ∀ (calls : List (BusCall L C)) (b : Bus L C),
    ((b.answerAll calls).1, (b.answerAll calls).2.chain?) = Register.answerAll b.chain? calls
  | [], _ => rfl
  | call :: calls, b => by
    have first := b.answer_register call
    have rest := answerAll_register calls (b.answer call).2
    simp only [answerAll, Register.answerAll, ← first, ← rest]

end Bus

/-! ## §3 Laws -/

namespace Register

/-- Every chain stands under the topic of its spec. -/
def Keyed (r : Register L C) : Prop :=
  ∀ topic chain, r topic = some chain → chain.spec.topic = topic

theorem Keyed.set_none {r : Register L C} (h : r.Keyed) (topic : String) :
    (r.set topic none).Keyed := by
  intro t chain found
  unfold set at found
  split at found
  · cases found
  · exact h t chain found

theorem Keyed.set_new {r : Register L C} (h : r.Keyed) (spec : TopicSpec) :
    (r.set spec.topic (some { spec })).Keyed := by
  intro t chain found
  unfold set at found
  split at found
  · rename_i own
    cases found
    exact own.symm
  · exact h t chain found

theorem Keyed.ensure {r : Register L C} (h : r.Keyed) (specs : List TopicSpec) :
    (r.ensure specs).Keyed := by
  intro t chain found
  rcases Option.or_eq_some_iff.1 found with there | ⟨-, new⟩
  · exact h t chain there
  · obtain ⟨spec, named, rfl⟩ := Option.map_eq_some_iff.1 new
    exact eq_of_beq (List.find?_some named :)

theorem Keyed.attach {r : Register L C} (h : r.Keyed) (topics : List String)
    {f : String → Chain L C → Chain L C} (keeps : ∀ t chain, (f t chain).spec = chain.spec) :
    (r.attach topics f).2.Keyed := by
  unfold Register.attach
  split
  · exact h
  · intro t chain found
    dsimp only at found
    split at found
    · obtain ⟨chain', there, rfl⟩ := Option.map_eq_some_iff.1 found
      rw [keeps]
      exact h t chain' there
    · exact h t chain found

theorem Keyed.answer {r : Register L C} (h : r.Keyed) (call : BusCall L C) :
    (r.answer call).2.Keyed := by
  cases call with
  | add spec =>
    unfold Register.answer
    dsimp only
    split
    · exact h
    · exact h.set_new spec
  | ensure spec => exact h.ensure [spec]
  | ensureLifecycle => exact h.ensure Topic.lifecycle
  | deleteEvent spec => exact h.set_none spec.topic
  | deleteTopic topic => exact h.set_none topic
  | onEvent spec q => exact h.attach [spec.topic] fun _ _ => rfl
  | onTopic topic q => exact h.attach [topic] fun _ _ => rfl
  | listenEvent spec l => exact h.attach [spec.topic] fun _ _ => rfl
  | listenTopic topic l => exact h.attach [topic] fun _ _ => rfl
  | subscribe subs =>
    refine h.attach (subs.map (·.1)) (f := fun t chain => { chain with
      clauses := chain.clauses ++ (subs.filter (·.1 == t)).flatMap (·.2) }) fun _ _ => rfl

theorem Keyed.answerAll {r : Register L C} (h : r.Keyed) (calls : List (BusCall L C)) :
    (r.answerAll calls).2.Keyed := by
  induction calls generalizing r with
  | nil => exact h
  | cons call calls ih => exact ih (h.answer call)

theorem ensure_of_not_mem {r : Register L C} {specs : List TopicSpec} {topic : String}
    (unnamed : topic ∉ specs.map (·.topic)) : r.ensure specs topic = r topic := by
  have unfound : specs.find? (·.topic == topic) = none := by
    refine List.find?_eq_none.2 fun spec mem same => unnamed ?_
    exact eq_of_beq same ▸ List.mem_map_of_mem mem
  rw [ensure, unfound]
  exact Option.or_none

theorem attach_of_not_mem {r : Register L C} {topics : List String} {topic : String}
    (unnamed : topic ∉ topics) (f : String → Chain L C → Chain L C) :
    (r.attach topics f).2 topic = r topic := by
  unfold attach
  split
  · rfl
  · exact if_neg unnamed

/-- A call leaves topics alone that it does not name. -/
theorem answer_of_not_mem (r : Register L C) {call : BusCall L C} {topic : String}
    (unnamed : topic ∉ call.topics) : (r.answer call).2 topic = r topic := by
  cases call with
  | add spec =>
    have other : topic ≠ spec.topic := by simpa [BusCall.topics] using unnamed
    unfold answer
    dsimp only
    split
    · rfl
    · exact if_neg other
  | ensure spec => exact ensure_of_not_mem (by simpa [BusCall.topics, BusCall.ensures,
      BusCall.attachesTo, BusCall.deletes] using unnamed)
  | ensureLifecycle => exact ensure_of_not_mem (by simpa [BusCall.topics, BusCall.ensures,
      BusCall.attachesTo, BusCall.deletes] using unnamed)
  | deleteEvent spec => exact if_neg (by simpa [BusCall.topics, BusCall.ensures,
      BusCall.attachesTo, BusCall.deletes] using unnamed)
  | deleteTopic t => exact if_neg (by simpa [BusCall.topics, BusCall.ensures,
      BusCall.attachesTo, BusCall.deletes] using unnamed)
  | onEvent spec q | onTopic t q | listenEvent spec l | listenTopic t l | subscribe subs =>
    refine attach_of_not_mem (fun mem => unnamed ?_) _
    exact List.mem_append_left _ (List.mem_append_left _ mem)

end Register

namespace Bus

variable {b : Bus L C}

theorem chain?_answer (b : Bus L C) (call : BusCall L C) :
    (b.answer call).2.chain? = (Register.answer b.chain? call).2 :=
  congrArg Prod.snd (b.answer_register call)

theorem attach_absent {topic : String} (absent : b.hasTopic topic = false)
    (f : Chain L C → Chain L C) : b.attach topic f = (.error (.topicNotFound topic), b) := by
  simp [attach, absent]

theorem attach_refused {topic : String} {f : Chain L C → Chain L C} {e : BusError}
    (refused : .ofResult (b.attach topic f).1 = Reply.refused e) : (b.attach topic f).2 = b := by
  unfold attach at refused ⊢
  split
  · rename_i present
    rw [if_pos present] at refused
    cases refused
  · rfl

/-- A call that is refused changes nothing. -/
theorem answer_refused {call : BusCall L C} {e : BusError}
    (refused : (b.answer call).1 = .refused e) : (b.answer call).2 = b := by
  cases call with
  | add spec =>
    cases there : b.hasTopic spec.topic <;> simp [answer, add, there] at refused ⊢
  | ensure spec => cases refused
  | ensureLifecycle => cases refused
  | deleteEvent spec => cases refused
  | deleteTopic topic => cases refused
  | onEvent spec q | onTopic topic q | listenEvent spec l | listenTopic topic l =>
    exact attach_refused refused
  | subscribe subs =>
    simp only [answer, subscribe] at refused ⊢
    split
    · rfl
    · rename_i known
      simp only [known] at refused
      cases refused

/-- Making sure of topics leaves those alone that are there. -/
theorem answer_ensures {call : BusCall L C} (ensures : call.ensures ≠ []) {topic : String}
    {chain : Chain L C} (there : b.chain? topic = some chain) :
    (b.answer call).2.chain? topic = some chain := by
  rw [chain?_answer]
  cases call with
  | ensure spec => exact Register.ensure_of_some there _
  | ensureLifecycle => exact Register.ensure_of_some there _
  | _ => exact absurd rfl ensures

theorem ensureLifecycle_ensureLifecycle (b : Bus L C) :
    b.ensureLifecycle.ensureLifecycle = b.ensureLifecycle := by
  refine ensureLifecycle_of_all fun spec mem => ?_
  rw [chain?_ensureLifecycle]
  exact Register.isSome_ensure mem

/-- Making sure again changes nothing, and is answered alike. -/
theorem answer_ensures_again {call : BusCall L C} (ensures : call.ensures ≠ []) :
    (b.answer call).2.answer call = b.answer call := by
  cases call with
  | ensure spec =>
    obtain ⟨chain, there, same⟩ : ∃ chain, (b.ensure spec).2.chain? spec.topic = some chain ∧
        chain.spec = (b.ensure spec).1 := by
      cases there : b.chain? spec.topic with
      | some chain =>
        rw [ensure_of_some there]
        exact ⟨chain, there, rfl⟩
      | none =>
        refine ⟨{ spec }, ?_, by simp [ensure, there]⟩
        simp [chain?_ensure, Register.ensure, there]
    simp only [answer, ensure_of_some there, same]
  | ensureLifecycle => exact congrArg (Prod.mk _) b.ensureLifecycle_ensureLifecycle
  | _ => exact absurd rfl ensures

/-- Links are attached to no topic unless all that are named are there. -/
theorem answer_attach_absent {call : BusCall L C} {topic : String}
    (first : call.attachesTo.find? (fun t => !b.hasTopic t) = some topic) :
    b.answer call = (.refused (.topicNotFound topic), b) := by
  have single : ∀ {t : String}, [t].find? (fun t => !b.hasTopic t) = some topic → ∀ f,
      (Reply.ofResult (b.attach t f).1, (b.attach t f).2) =
        (.refused (.topicNotFound topic), b) := by
    intro t first f
    obtain rfl : topic = t := List.mem_singleton.1 (List.mem_of_find?_eq_some first)
    have absent : b.hasTopic topic = false := by simpa using List.find?_some first
    rw [attach_absent absent]
    rfl
  cases call with
  | onEvent spec q | onTopic t q | listenEvent spec l | listenTopic t l => exact single first _
  | subscribe subs =>
    have first : (subs.map (·.1)).find? (fun t => !b.hasTopic t) = some topic := first
    rw [List.find?_map] at first
    obtain ⟨s, found, rfl⟩ := Option.map_eq_some_iff.1 first
    have found : subs.find? (fun s => !b.hasTopic s.1) = some s := found
    simp only [answer, subscribe, found, Reply.ofResult]
  | _ => cases first

theorem answer_deletes {call : BusCall L C} {topic : String}
    (deletes : call.deletes = some topic) :
    (b.answer call).1 = .flag (b.hasTopic topic) ∧ (b.answer call).2.chain? topic = none := by
  have gone : (b.delete topic).2.chain? topic = none := by
    rw [chain?_delete]
    exact if_pos rfl
  cases call with
  | deleteEvent spec =>
    obtain rfl := Option.some.inj deletes
    exact ⟨rfl, gone⟩
  | deleteTopic t =>
    obtain rfl := Option.some.inj deletes
    exact ⟨rfl, gone⟩
  | _ => cases deletes

/-! ### Looking up -/

theorem spec?_eq_some_iff (keyed : Register.Keyed b.chain?) {topic : String} {spec : TopicSpec} :
    b.spec? topic = some spec ↔
      spec.topic = topic ∧ ∃ chain, b.chain? topic = some chain ∧ chain.spec = spec := by
  rw [spec?, Option.map_eq_some_iff]
  constructor
  · rintro ⟨chain, there, rfl⟩
    exact ⟨keyed topic chain there, chain, there, rfl⟩
  · rintro ⟨-, found⟩
    exact found

theorem names_eq (keyed : Register.Keyed b.chain?) : b.names = b.specs.map (·.topic) := by
  have same : ∀ e ∈ b.topics.entries, e.1 = e.2.spec.topic := fun e mem =>
    (keyed e.1 e.2 (b.topics.get?_eq_some_iff.2 mem)).symm
  rw [names, NameMap.names, List.map_congr_left same, specs, NameMap.values, List.map_map,
    List.map_map]
  rfl

theorem mem_specs_iff (keyed : Register.Keyed b.chain?) (spec : TopicSpec) :
    spec ∈ b.specs ↔ b.spec? spec.topic = some spec := by
  rw [spec?_eq_some_iff keyed, specs, NameMap.values, List.map_map, List.mem_map]
  constructor
  · rintro ⟨e, mem, rfl⟩
    have there : b.chain? e.1 = some e.2 := b.topics.get?_eq_some_iff.2 mem
    refine ⟨rfl, e.2, ?_, rfl⟩
    rw [← there]
    exact congrArg b.chain? (keyed e.1 e.2 there)
  · rintro ⟨-, chain, there, rfl⟩
    exact ⟨_, b.topics.get?_eq_some_iff.1 there, rfl⟩

/-- Where every chain stands under the topic of its spec, the bus is lawful. -/
theorem lawful_of_keyed (keyed : Register.Keyed b.chain?) : b.Lawful where
  frame call topic unnamed := by
    rw [chain?_answer]
    exact Register.answer_of_not_mem _ unnamed
  refused _ _ := answer_refused
  addAgain spec there := by simp [answer, add, there]
  addNew spec absent := by
    refine ⟨by simp [answer, add, absent], ?_⟩
    have absent' : (b.chain? spec.topic).isSome = false := absent
    rw [chain?_answer]
    simp [Register.answer, absent', Register.set]
  ensured _ _ _ ensures := answer_ensures ensures
  ensuredAgain _ := answer_ensures_again
  attachAbsent _ _ := answer_attach_absent
  deleted _ _ := answer_deletes
  has_iff topic := by
    rw [hasTopic_eq, spec?, ← Option.isSome_iff_exists, Option.isSome_map]
  mem_names_iff topic := b.topics.mem_names_iff topic
  mem_specs_iff := mem_specs_iff keyed
  names_eq := names_eq keyed
  rising_names := b.topics.rising_names
  rising_specs := by
    have rising : (b.specs.map (·.topic)).Pairwise (· < ·) :=
      names_eq keyed ▸ b.topics.rising_names
    exact List.pairwise_map.1 rising

end Bus

/-! ## §4 Pools and managers on a bus -/

/-- Making sure of the lifecycle topics of one bus among several. -/
theorem exists_modify_ensureLifecycle {buses : List (Bus L C)} {i j : BusId} {b : Bus L C}
    (found : buses[j]? = some b) : ∃ b', (buses.modify i (·.ensureLifecycle))[j]? = some b' ∧
      (∀ topic chain, b.chain? topic = some chain → b'.chain? topic = some chain) ∧
      b' = if i = j then (b.answer .ensureLifecycle).2 else b := by
  rw [List.getElem?_modify, found]
  by_cases own : i = j
  · refine ⟨b.ensureLifecycle, congrArg some (if_pos own), fun topic chain there => ?_,
      (if_pos own).symm⟩
    rw [Bus.chain?_ensureLifecycle]
    exact Register.ensure_of_some there _
  · exact ⟨b, congrArg some (if_neg own), fun _ _ there => there, (if_neg own).symm⟩

/-- A bus after any sequence of calls. All answers so far are those of the register, and so are
the chains; each further call keeps to the laws, and the ways of looking up agree. A pool or a
manager that is created on a bus makes sure of the lifecycle topics there, which changes no
chain that the bus has, and leaves all other buses as they are. -/
theorem bus_refines_register (calls : List (BusCall L C)) :
    let b := ((Bus.empty : Bus L C).answerAll calls).2
    ((Bus.empty : Bus L C).answerAll calls).1 =
        ((Register.empty : Register L C).answerAll calls).1 ∧
      b.chain? = ((Register.empty : Register L C).answerAll calls).2 ∧
      b.Lawful ∧
      ∀ (w w' : World) (i j : BusId) (b : ScriptBus), w.buses[j]? = some b →
        ((∃ name settings driver, w' = (w.addPool name settings driver i).2) ∨
          w' = (Manager.onBus w i).2) →
        ∃ b', w'.buses[j]? = some b' ∧
          (∀ topic chain, b.chain? topic = some chain → b'.chain? topic = some chain) ∧
          b' = if i = j then (b.answer .ensureLifecycle).2 else b := by
  have same := Bus.answerAll_register calls (Bus.empty : Bus L C)
  rw [Bus.chain?_empty] at same
  have none_keyed : (Register.empty : Register L C).Keyed := fun _ _ found => by cases found
  have keyed := none_keyed.answerAll calls
  rw [← same] at keyed
  refine ⟨congrArg Prod.fst same, congrArg Prod.snd same, Bus.lawful_of_keyed keyed, ?_⟩
  rintro w w' i j b found (⟨name, settings, driver, rfl⟩ | rfl)
  · exact exists_modify_ensureLifecycle found
  · exact exists_modify_ensureLifecycle found

/-- A topic gets links, is deleted, and is added again. It begins without links, then gets the
clauses of a subscription that names it twice; a subscription that also names a topic that is
not there comes to nothing, and making sure of the topic does not change its description. -/
theorem bus_refines_register_reborn :
    let calls : List (BusCall Nat Nat) :=
      [.add ⟨"a", some "first"⟩, .onTopic "a" 1, .listenTopic "a" 7, .deleteTopic "a",
        .deleteEvent ⟨"a", none⟩, .add ⟨"a", none⟩, .subscribe [("a", [2]), ("b", [3])],
        .subscribe [("a", [4]), ("a", [5, 6])], .ensure ⟨"a", some "last"⟩]
    let b := ((Bus.empty : Bus Nat Nat).answerAll calls).2
    ((Bus.empty : Bus Nat Nat).answerAll calls).1 =
        [.spec (some ⟨"a", some "first"⟩), .done, .done, .flag true, .flag false,
          .spec (some ⟨"a", none⟩), .refused (.topicNotFound "b"), .done,
          .spec (some ⟨"a", none⟩)] ∧
      b.chain? "a" = some { spec := ⟨"a", none⟩, clauses := [4, 5, 6] } ∧
      b.answer (.add ⟨"a", some "again"⟩) = (.refused (.topicExists "a"), b) ∧
      b.answer (.onTopic "b" 8) = (.refused (.topicNotFound "b"), b) := by
  intro calls b
  obtain ⟨answers, chains, lawful, -⟩ := bus_refines_register calls
  refine ⟨answers.trans (by decide +kernel), (congrFun chains "a").trans rfl, ?_, ?_⟩
  · exact lawful.addAgain ⟨"a", some "again"⟩ (by decide +kernel)
  · exact lawful.attachAbsent (.onTopic "b" 8) "b" (by decide +kernel)

end JobPool
