import FraiseQL.ExecutorSecurity
import FraiseQL.SubscriptionRegistry

/-! Row security of subscriptions (`extract_rls_conditions`). The row security clause is reduced to a list of
equalities when a client subscribes; what the list cannot say is left out on purpose, so a delivered event
satisfies the equalities of the clause and not always the clause. -/

namespace FraiseQL.Subscription

open Manager List

mutual

def collectEqConditions : WhereClause → List (String × Json)
  | .field path .eq value => (path.getLast?.map fun field => (field, value)).toList
  | .and clauses => collectAllEqConditions clauses
  | _ => []

def collectAllEqConditions : List WhereClause → List (String × Json)
  | [] => []
  | clause :: clauses => collectEqConditions clause ++ collectAllEqConditions clauses

end

def extractRlsConditions (clause : WhereClause) : List (String × Json) := collectEqConditions clause

/-! ### What the conditions keep of a clause -/

/-- A name that is one segment of a pointer, written as it is. -/
def plainName (name : String) : Bool := name.toList.all fun c => c ≠ '/' && c ≠ '.' && c ≠ '~'

mutual

/-- The clause with its alternatives, negations, other operators, native columns and longer paths left out. -/
def equalityPart : WhereClause → WhereClause
  | .field [name] .eq value => if plainName name then .field [name] .eq value else .and []
  | .and clauses => .and (equalityParts clauses)
  | _ => .and []

def equalityParts : List WhereClause → List WhereClause
  | [] => []
  | clause :: clauses => equalityPart clause :: equalityParts clauses

end

/-- The truth of conditions on an event: an equality is true when the value at its path is the given one. Other
conditions are read in any way. -/
def Reading (host : Host) (data : Json) (v : WhereClause → Option Bool) : Prop :=
  ∀ path value, v (.field path .eq value) = some true ↔ (valueAt data path).any (host.valueEq · value) = true

/-- Every payload that a run sends is for a subscription whose row security clause, as far as a part of it goes, is
true of the event. -/
def Respects (part : WhereClause → WhereClause) (host : Host) (schema : String → Option SubscriptionDefinition)
    (events : List Event) : Prop :=
  let m := EventRun.run (Manager.step host schema) Manager.start events
  ∀ payload ∈ m.sent, ∀ request, m.requests payload.subscriptionId = some request →
    ∀ clause, request.rlsConditions = extractRlsConditions clause →
      ∀ v, Reading host payload.event.data v → truth v (part clause) = some true

/-! ### Conditions -/

section Conditions

variable {host : Host} {data : Json} {v : WhereClause → Option Bool}

theorem replacePair_of_notMem {a b r : Char} {cs : List Char} (h : a ∉ cs) : replacePair a b r cs = cs := by
  induction cs with
  | nil => rfl
  | cons x cs ih =>
    have hx : a ≠ x := ne_of_not_mem_cons h
    have hcs : a ∉ cs := not_mem_of_not_mem_cons h
    cases cs with
    | nil => rfl
    | cons y cs =>
      rw [replacePair, if_neg fun hxy => hx hxy.1.symm, ih hcs]

theorem plainName_notMem {name : String} (h : plainName name = true) :
    '/' ∉ name.toList ∧ '.' ∉ name.toList ∧ '~' ∉ name.toList := by
  have hchars := all_eq_true.mp h
  refine ⟨?_, ?_, ?_⟩
  all_goals
    intro hmem
    have := hchars _ hmem
    simp at this

/-- A plain name points to the member of that name. -/
theorem getJsonPointerValue_plain {name : String} (h : plainName name = true) :
    getJsonPointerValue data name = valueAt data [name] := by
  obtain ⟨hslash, hdot, htilde⟩ := plainName_notMem h
  have hhead : name.toList.head? ≠ some '/' := fun hhead => hslash (mem_of_mem_head? hhead)
  have hmap : (name.toList.map fun c => if c = '.' then '/' else c) = name.toList := by
    conv_rhs => rw [← map_id name.toList]
    apply map_congr_left
    intro c hc
    have hne : c ≠ '.' := by
      rintro rfl
      exact hdot hc
    rw [if_neg hne, id]
  have hsplit : name.toList.splitOn '/' = [name.toList] := by
    apply splitOnP_eq_singleton
    intro c hc
    apply beq_eq_false_iff_ne.mpr
    rintro rfl
    exact hslash hc
  have hescape : unescape name.toList = name.toList := by
    rw [unescape, replacePair_of_notMem htilde, replacePair_of_notMem htilde]
  rw [getJsonPointerValue, if_neg hhead, hmap, pointer, hsplit]
  simp [hescape]

theorem equalityPart_field (path : List String) (operator : WhereOperator) (value : Json) :
    (∃ name, path = [name] ∧ operator = .eq ∧ plainName name = true ∧
      equalityPart (.field path operator value) = .field [name] .eq value) ∨
    equalityPart (.field path operator value) = .and [] := by
  unfold equalityPart
  split
  · next name _ heq =>
      obtain ⟨rfl, rfl, rfl⟩ := WhereClause.field.inj heq
      split_ifs with hplain
      · exact .inl ⟨name, rfl, rfl, hplain, rfl⟩
      · exact .inr rfl
  · next heq => cases heq
  · exact .inr rfl

mutual

/-- Data that meets the conditions satisfies the equalities of the clause. -/
theorem truth_equalityPart (hv : Reading host data v) : ∀ clause : WhereClause,
    (∀ condition ∈ collectEqConditions clause, holdsAt host data condition.1 condition.2 = true) →
    truth v (equalityPart clause) = some true
  | .and clauses, h => by
    rw [equalityPart, truth]
    rw [collectEqConditions] at h
    exact truth_equalityParts hv clauses h
  | .or _, _ => by simp [equalityPart, truth, truthAll]
  | .not _, _ => by simp [equalityPart, truth, truthAll]
  | .nativeField .., _ => by simp [equalityPart, truth, truthAll]
  | .field path operator value, h => by
    rcases equalityPart_field path operator value with ⟨name, rfl, rfl, hplain, heq⟩ | heq
    · have hholds := h (name, value) (by simp [collectEqConditions])
      rw [holdsAt, getJsonPointerValue_plain hplain] at hholds
      rw [heq]
      simp only [truth]
      exact (hv [name] value).mpr hholds
    · rw [heq, truth, truthAll]

theorem truth_equalityParts (hv : Reading host data v) : ∀ clauses : List WhereClause,
    (∀ condition ∈ collectAllEqConditions clauses, holdsAt host data condition.1 condition.2 = true) →
    truthAll v (equalityParts clauses) = some true
  | [], _ => by rw [equalityParts, truthAll]
  | clause :: clauses, h => by
    rw [collectAllEqConditions] at h
    rw [equalityParts, truthAll, kleeneAnd_eq_true]
    constructor
    · exact truth_equalityPart hv clause fun condition hmem => h condition (mem_append_left _ hmem)
    · exact truth_equalityParts hv clauses fun condition hmem => h condition (mem_append_right _ hmem)

end

theorem holdsAt_of_matches {event : SubscriptionEvent} {active : ActiveSubscription}
    (h : matchesSubscription host event active = true) :
    ∀ condition ∈ active.rlsConditions, holdsAt host event.data condition.1 condition.2 = true := by
  unfold matchesSubscription at h
  simp only [Bool.and_eq_true] at h
  exact all_eq_true.mp h.1.2

end Conditions

/-! ### Payloads -/

namespace Manager

variable {host : Host} {schema : String → Option SubscriptionDefinition} {m : Manager}

/-- A subscription that was made for a call that has begun. -/
def Known (m : Manager) (active : ActiveSubscription) : Prop := active.id < m.calls.length ∧ Made m active

/-- Every subscription is as it was asked for, and every payload matched one. -/
structure Sourced (host : Host) (m : Manager) : Prop where
  calls : ∀ active, .subscribing active ∈ m.calls ∨ .inserting active ∈ m.calls → Known m active
  stored : ∀ active ∈ m.subscriptions, Known m active
  sent : ∀ payload ∈ m.sent, ∃ active, Known m active ∧ payload.subscriptionId = active.id ∧
    matchesSubscription host payload.event active = true

theorem sourced_start : Sourced host start := by
  constructor
  · rintro active (hmem | hmem)
    · cases hmem
    · cases hmem
  · intro active hmem
    cases hmem
  · intro payload hmem
    cases hmem

/-- A step that makes no subscription of its own. -/
theorem Sourced.mono {m' : Manager} (h : Sourced host m) (hknown : ∀ active, Known m active → Known m' active)
    (hcalls : ∀ active, .subscribing active ∈ m'.calls ∨ .inserting active ∈ m'.calls → Known m' active)
    (hstored : ∀ active ∈ m'.subscriptions, Known m active) (hsent : m'.sent = m.sent) : Sourced host m' := by
  refine ⟨hcalls, fun active hactive => hknown active (hstored active hactive), ?_⟩
  intro payload hpayload
  rw [hsent] at hpayload
  obtain ⟨active, hactive, hfacts⟩ := h.sent payload hpayload
  exact ⟨active, hknown active hactive, hfacts⟩

theorem Sourced.move {m' : Manager} {i : Nat} {new : Call} (h : Sourced host m) (hcalls : m'.calls = m.calls.set i new)
    (hrequests : m'.requests = m.requests) (hsent : m'.sent = m.sent)
    (hstored : ∀ active ∈ m'.subscriptions, Known m active)
    (hnew : ∀ active, new = .subscribing active ∨ new = .inserting active → Known m active) : Sourced host m' := by
  have hknown : ∀ active, Known m active → Known m' active := by
    rintro active ⟨hlt, hmade⟩
    unfold Known Made
    rw [hcalls, hrequests, length_set]
    exact ⟨hlt, hmade⟩
  refine h.mono hknown ?_ hstored hsent
  intro active hmem
  apply hknown
  rw [hcalls] at hmem
  rcases hmem with hmem | hmem
  · rcases mem_or_eq_of_mem_set hmem with hmem | heq
    · exact h.calls active (.inl hmem)
    · exact hnew active (.inl heq.symm)
  · rcases mem_or_eq_of_mem_set hmem with hmem | heq
    · exact h.calls active (.inr hmem)
    · exact hnew active (.inr heq.symm)

theorem Sourced.advance (h : Sourced host m) (i : Nat) : Sourced host (m.advance i) := by
  have hremove : ∀ id, ∀ active ∈ (m.remove id).subscriptions, Known m active := by
    intro id active hactive
    exact h.stored active (mem_remove.mp hactive).1
  have hnone : ∀ {call : Call}, (∀ active, call ≠ .subscribing active) → (∀ active, call ≠ .inserting active) →
      ∀ active, call = .subscribing active ∨ call = .inserting active → Known m active := by
    rintro call hsub hins active (heq | heq)
    · exact absurd heq (hsub active)
    · exact absurd heq (hins active)
  unfold Manager.advance
  cases hcall : m.calls[i]? with
  | none => exact h
  | some call =>
    have hmem : call ∈ m.calls := mem_iff_getElem?.mpr ⟨i, hcall⟩
    cases call with
    | subscribing active =>
      dsimp only
      split_ifs with hfull
      · exact h.move rfl rfl rfl h.stored (hnone nofun nofun)
      · refine h.move rfl rfl rfl h.stored ?_
        rintro other (heq | heq)
        · cases heq
        · rw [← Call.inserting.inj heq]
          exact h.calls active (.inl hmem)
    | inserting active =>
      refine h.move rfl rfl rfl ?_ (hnone nofun nofun)
      intro other hother
      rcases mem_cons.mp hother with rfl | hother
      · exact h.calls other (.inr hmem)
      · exact h.stored other hother
    | unsubscribing id =>
      dsimp only
      cases hfind : m.subscriptions.find? fun active => active.id = id with
      | none => exact h.move rfl rfl rfl h.stored (hnone nofun nofun)
      | some active => exact h.move rfl rfl rfl (hremove id) (hnone nofun nofun)
    | unlisting id c =>
      dsimp only
      cases hindex : m.subscriptionsByConnection c with
      | none | some ids => exact h.move rfl rfl rfl h.stored (hnone nofun nofun)
    | disconnecting c second => exact h.move rfl rfl rfl h.stored (hnone nofun nofun)
    | removing c second ids =>
      cases ids with
      | cons id ids => exact h.move rfl rfl rfl (hremove id) (hnone nofun nofun)
      | nil =>
        cases second with
        | false | true => exact h.move rfl rfl rfl h.stored (hnone nofun nofun)
    | returned => exact h

theorem Sourced.append {m' : Manager} {call : Call} (h : Sourced host m) (hcalls : m'.calls = m.calls ++ [call])
    (hrequests : ∀ id < m.calls.length, m'.requests id = m.requests id) (hsent : m'.sent = m.sent)
    (hstored : m'.subscriptions = m.subscriptions)
    (hnew : ∀ active, call = .subscribing active ∨ call = .inserting active → Known m' active) : Sourced host m' := by
  have hknown : ∀ active, Known m active → Known m' active := by
    rintro active ⟨hlt, hmade⟩
    unfold Known Made
    rw [hcalls, hrequests _ hlt, length_append]
    exact ⟨Nat.lt_add_right _ hlt, hmade⟩
  refine h.mono hknown ?_ ?_ hsent
  · intro active hmem
    rw [hcalls] at hmem
    rcases hmem with hmem | hmem
    · rcases mem_append.mp hmem with hmem | heq
      · exact hknown active (h.calls active (.inl hmem))
      · exact hnew active (.inl (mem_singleton.mp heq).symm)
    · rcases mem_append.mp hmem with hmem | heq
      · exact hknown active (h.calls active (.inr hmem))
      · exact hnew active (.inr (mem_singleton.mp heq).symm)
  · rw [hstored]
    exact h.stored

theorem Sourced.begin (h : Sourced host m) (request : Request) : Sourced host (m.begin schema request) := by
  cases request with
  | subscribe request =>
    simp only [Manager.begin]
    cases hschema : schema request.subscriptionName with
    | none => exact h
    | some definition =>
      refine h.append rfl ?_ rfl rfl ?_
      · intro id hid
        exact Function.update_of_ne hid.ne _ _
      · rintro active (heq | heq)
        · rw [← Call.subscribing.inj heq]
          constructor
          · simp [ActiveSubscription.ofRequest]
          · exact ⟨request, definition, Function.update_self _ _ _, rfl⟩
        · cases heq
  | unsubscribe id | unsubscribeConnection c =>
    refine h.append rfl (fun _ _ => rfl) rfl rfl ?_
    rintro active (heq | heq)
    · cases heq
    · cases heq

theorem Sourced.publish (h : Sourced host m) (event : SubscriptionEvent) : Sourced host (m.publish host event) := by
  refine ⟨h.calls, h.stored, ?_⟩
  intro payload hpayload
  rcases mem_append.mp hpayload with hpayload | hpayload
  · obtain ⟨active, hactive, rfl⟩ := mem_map.mp hpayload
    obtain ⟨hactive, hmatches⟩ := mem_filter.mp hactive
    exact ⟨active, h.stored active hactive, rfl, hmatches⟩
  · exact h.sent payload hpayload

theorem Sourced.step (h : Sourced host m) (event : Event) : Sourced host (m.step host schema event) := by
  cases event with
  | call request => exact h.begin request
  | advance i => exact h.advance i
  | publish event => exact h.publish event

end Manager

/-- Whatever calls and events come in whatever order, an event is delivered only to subscriptions whose row security
equalities it satisfies. -/
theorem deliveries_respect_equalities (host : Host) (schema : String → Option SubscriptionDefinition)
    (events : List Event) : Respects equalityPart host schema events := by
  intro payload hpayload request hrequest clause hclause v hv
  have hsourced : Manager.Sourced host (EventRun.run (step host schema) start events) :=
    EventRun.run_invariant (fun _ event h => h.step event) events sourced_start
  obtain ⟨active, ⟨-, made, definition, hmade, hactive⟩, hid, hmatches⟩ := hsourced.sent payload hpayload
  rw [hid, hmade] at hrequest
  have hconditions : active.rlsConditions = extractRlsConditions clause := by
    rw [hactive, ← hclause, ← Option.some.inj hrequest]
    rfl
  apply truth_equalityPart hv
  intro condition hmem
  apply holdsAt_of_matches hmatches
  rw [hconditions]
  exact hmem

/-- A row security clause with alternatives. -/
def ownOrShared : WhereClause :=
  .or [.field ["tenant_id"] .eq (.str "acme"), .field ["shared"] .eq (.bool true)]

def otherTenantsOrder : SubscriptionEvent :=
  ⟨"evt_1", "Order", "1", .create, 0, 0, .obj [("shared", .bool false), ("tenant_id", .str "bolt")], none⟩

/-- A reading of the equalities in which nothing else is known. -/
def equalitiesOnly (host : Host) (data : Json) : WhereClause → Option Bool
  | .field path .eq value => some ((valueAt data path).any (host.valueEq · value))
  | _ => none

/-- An event of another tenant is delivered to a client whose clause it does not satisfy. -/
theorem alternatives_not_checked : ¬∀ host schema events, Respects id host schema events := by
  intro h
  have hrespects := h asciiHost orderSchema
    [.call (.subscribe ⟨"orderCreated", .null, .null, "c1", extractRlsConditions ownOrShared⟩), .advance 0, .advance 0,
      .publish otherTenantsOrder]
  have hreading : Reading asciiHost otherTenantsOrder.data
      (equalitiesOnly asciiHost otherTenantsOrder.data) := by
    intro path value
    exact ⟨Option.some.inj, congrArg some⟩
  have htrue := hrespects _ mem_cons_self _ rfl ownOrShared rfl _ hreading
  revert htrue
  decide

end FraiseQL.Subscription
