import FraiseQL.SubscriptionManager

/-! The registry of subscriptions over whole runs. An invariant says for every entry of one map which entry of the
other, or which call under way, accounts for it; every step of an orderly run keeps it, and when no call is under
way only the entries are left. -/

namespace FraiseQL.Subscription.Manager

open List Option

variable {host : Host} {schema : String → Option SubscriptionDefinition} {m : Manager}

/-- The subscription of a request that was made. -/
def Made (m : Manager) (active : ActiveSubscription) : Prop :=
  ∃ request definition, m.requests active.id = some request ∧ active = .ofRequest active.id definition request

/-- The call of a number has listed its subscription, if it is one that does. -/
def Begun (m : Manager) (id : Nat) : Prop :=
  ∃ call, m.calls[id]? = some call ∧ ∀ active, call ≠ .subscribing active

/-- A disconnect is about to remove the subscription. -/
def Condemned (m : Manager) (id : Nat) : Prop := ∃ c second ids, .removing c second ids ∈ m.calls ∧ id ∈ ids

/-- A subscription is on the index or about to be removed. -/
def Tracked (m : Manager) (active : ActiveSubscription) : Prop :=
  active.id ∈ m.listed active.connectionId ∨ Condemned m active.id

/-- A listed identifier belongs to a subscription of the connection that is stored, about to be stored, or removed
and about to be taken off the index. -/
structure ListedOk (m : Manager) (c : String) (id : Nat) : Prop where
  begun : Begun m id
  own : ∃ request, m.requests id = some request ∧ request.connectionId = c
  accounted : (∃ active ∈ m.subscriptions, active.id = id) ∨ (∃ active, .inserting active ∈ m.calls ∧ active.id = id) ∨
    .unlisting id c ∈ m.calls

/-- A connection lists nothing and no call is about to list anything for it. -/
def Quiet (m : Manager) (c : String) : Prop :=
  m.listed c = [] ∧ ∀ active, .subscribing active ∈ m.calls → active.connectionId ≠ c

structure StoredOk (m : Manager) (active : ActiveSubscription) : Prop where
  made : Made m active
  done : m.calls[active.id]? = some .returned
  tracked : Tracked m active

/-- What holds of the call of a number. -/
def CallOk (m : Manager) (i : Nat) : Call → Prop
  | .subscribing active => active.id = i ∧ Made m active
  | .inserting active => active.id = i ∧ Made m active ∧ Tracked m active
  | .unlisting id _ => m.calls[id]? = some .returned ∧ ∀ active ∈ m.subscriptions, active.id ≠ id
  | .removing c second ids =>
    (∀ id ∈ ids, Begun m id ∧ ∀ c, id ∉ m.listed c) ∧ (second = true → Quiet m c)
  | _ => True

structure Inv (m : Manager) : Prop where
  calls : ∀ i call, m.calls[i]? = some call → CallOk m i call
  stored : ∀ active ∈ m.subscriptions, StoredOk m active
  listed : ∀ c, ∀ id ∈ m.listed c, ListedOk m c id
  capped : m.Capped

theorem inv_start : Inv start := by
  constructor
  · intro i call h
    cases h
  · intro active h
    cases h
  · intro c id h
    cases h
  · intro c
    exact Nat.zero_le _

/-! ### What a step leaves as it is -/

@[simp] theorem listed_goOn (i : Nat) (call : Call) (c : String) : (m.goOn i call).listed c = m.listed c := rfl

variable {id : Nat} {active : ActiveSubscription}

theorem mem_remove : active ∈ (m.remove id).subscriptions ↔ active ∈ m.subscriptions ∧ active.id ≠ id := by
  simp [remove]

theorem listed_index (c c' : String) (ids : Option (List Nat)) :
    (m.index c ids).listed c' = if c' = c then ids.getD [] else m.listed c' := by
  by_cases h : c' = c
  · rw [if_pos h, h]
    simp [listed, index]
  · rw [if_neg h]
    simp [listed, index, Function.update_of_ne h]

variable {call : Call}

/-- Every other call stays where it is. -/
theorem mem_set {calls : List Call} {i : Nat} {old new : Call} (hold : calls[i]? = some old)
    (hmem : call ∈ calls) (hne : call ≠ old) : call ∈ calls.set i new := by
  obtain ⟨j, hj⟩ := mem_iff_getElem?.mp hmem
  apply mem_iff_getElem?.mpr
  refine ⟨j, ?_⟩
  have hij : i ≠ j := by
    rintro rfl
    exact hne (some.inj (hj.symm.trans hold))
  rwa [getElem?_set_ne hij]

/-- One call has done a step, and begins nothing new. -/
structure Moves (m m' : Manager) (i : Nat) (old new : Call) : Prop where
  before : m.calls[i]? = some old
  after : m'.calls = m.calls.set i new
  requests : m'.requests = m.requests
  open' : old ≠ .returned
  listing : ∀ active, new ≠ .subscribing active

namespace Moves

variable {m' : Manager} {i : Nat} {old new : Call}

theorem getElem (h : Moves m m' i old new) {j : Nat} (hj : j ≠ i) : m'.calls[j]? = m.calls[j]? := by
  rw [h.after, getElem?_set_ne hj.symm]

theorem getElem_self (h : Moves m m' i old new) : m'.calls[i]? = some new := by
  rw [h.after]
  exact List.getElem?_set_self (List.getElem?_eq_some_iff.mp h.before).1

theorem mem (h : Moves m m' i old new) {call : Call} (hmem : call ∈ m.calls) (hne : call ≠ old) :
    call ∈ m'.calls := by
  rw [h.after]
  exact mem_set h.before hmem hne

theorem of_mem (h : Moves m m' i old new) {call : Call} (hmem : call ∈ m'.calls) : call ∈ m.calls ∨ call = new := by
  rw [h.after] at hmem
  exact mem_or_eq_of_mem_set hmem

theorem new_mem (h : Moves m m' i old new) : new ∈ m'.calls := mem_iff_getElem?.mpr ⟨i, h.getElem_self⟩

variable {id : Nat}

theorem done (h : Moves m m' i old new) (hdone : m.calls[id]? = some .returned) : m'.calls[id]? = some .returned := by
  have hid : id ≠ i := by
    rintro rfl
    exact h.open' (some.inj (h.before.symm.trans hdone))
  rw [h.getElem hid, hdone]

theorem begun (h : Moves m m' i old new) (hbegun : Begun m id) : Begun m' id := by
  obtain ⟨call, hcall, hne⟩ := hbegun
  by_cases hid : id = i
  · rw [hid]
    exact ⟨new, h.getElem_self, h.listing⟩
  · exact ⟨call, (h.getElem hid).trans hcall, hne⟩

variable {active : ActiveSubscription}

theorem made (h : Moves m m' i old new) (hmade : Made m active) : Made m' active := by
  unfold Made
  rw [h.requests]
  exact hmade

/-- No call is about to list anything that was not before. -/
theorem subscribing (h : Moves m m' i old new) (hmem : .subscribing active ∈ m'.calls) :
    .subscribing active ∈ m.calls := by
  rcases h.of_mem hmem with hmem | hnew
  · exact hmem
  · exact absurd hnew.symm (h.listing active)

theorem condemned (h : Moves m m' i old new) (hcondemned : Condemned m id)
    (hold : ∀ c second ids, old = .removing c second ids → id ∉ ids) : Condemned m' id := by
  obtain ⟨c, second, ids, hmem, hid⟩ := hcondemned
  refine ⟨c, second, ids, h.mem hmem ?_, hid⟩
  intro heq
  exact hold c second ids heq.symm hid

theorem quiet (h : Moves m m' i old new) {c : String} (hquiet : Quiet m c) (hlisted : m'.listed c = []) :
    Quiet m' c := by
  refine ⟨hlisted, ?_⟩
  intro active hmem
  exact hquiet.2 active (h.subscribing hmem)

/-- What holds of the other calls, when their subscriptions stay tracked and gone, and nothing that is condemned or
quiet is listed. -/
theorem callOk (h : Moves m m' i old new) (hinv : Inv m)
    (htracked : ∀ active, .inserting active ∈ m.calls → .inserting active ≠ old → Tracked m active → Tracked m' active)
    (hgone : ∀ active ∈ m'.subscriptions, active ∈ m.subscriptions ∨ m.calls[active.id]? ≠ some .returned)
    (hlisted : ∀ c, ∀ id ∈ m'.listed c, id ∈ m.listed c ∨ ¬Begun m id)
    (hquiet : ∀ c, Quiet m c → m'.listed c = []) (hnew : CallOk m' i new) :
    ∀ j call, m'.calls[j]? = some call → CallOk m' j call := by
  intro j call hj
  by_cases hji : j = i
  · rw [hji, h.getElem_self] at hj
    rw [hji, ← some.inj hj]
    exact hnew
  · rw [h.getElem hji] at hj
    have hok := hinv.calls j call hj
    have hmem : call ∈ m.calls := mem_iff_getElem?.mpr ⟨j, hj⟩
    cases call with
    | subscribing active => exact ⟨hok.1, h.made hok.2⟩
    | inserting active =>
      refine ⟨hok.1, h.made hok.2.1, htracked active hmem ?_ hok.2.2⟩
      rintro rfl
      -- The call of this subscription has another number.
      exact hji (hok.1.symm.trans (hinv.calls i _ h.before).1)
    | unlisting id c =>
      refine ⟨h.done hok.1, ?_⟩
      intro active hactive heq
      rcases hgone active hactive with hactive | hopen
      · exact hok.2 active hactive heq
      · rw [heq] at hopen
        exact hopen hok.1
    | removing c second ids =>
      refine ⟨?_, fun hsecond => h.quiet (hok.2 hsecond) (hquiet c (hok.2 hsecond))⟩
      intro id hid
      obtain ⟨hbegun, hunlisted⟩ := hok.1 id hid
      refine ⟨h.begun hbegun, ?_⟩
      intro c' hmem'
      rcases hlisted c' id hmem' with hmem' | hnot
      · exact hunlisted c' hmem'
      · exact hnot hbegun
    | unsubscribing _ => trivial
    | disconnecting _ _ => trivial
    | returned => trivial

theorem storedOk (h : Moves m m' i old new) (hok : StoredOk m active)
    (htracked : Tracked m active → Tracked m' active) : StoredOk m' active :=
  ⟨h.made hok.made, h.done hok.done, htracked hok.tracked⟩

theorem listedOk (h : Moves m m' i old new) {c : String} (hok : ListedOk m c id)
    (hstored : ∀ active ∈ m.subscriptions, active.id = id → ListedOk m c id →
      active ∈ m'.subscriptions ∨ .unlisting id c ∈ m'.calls)
    (hinserting : ∀ active, old = .inserting active → active ∈ m'.subscriptions)
    (hunlisting : old ≠ .unlisting id c) : ListedOk m' c id := by
  refine ⟨h.begun hok.begun, ?_, ?_⟩
  · rw [h.requests]
    exact hok.own
  · rcases hok.accounted with ⟨active, hactive, hid⟩ | ⟨active, hmem, hid⟩ | hmem
    · rcases hstored active hactive hid hok with hactive | hmem
      · exact .inl ⟨active, hactive, hid⟩
      · exact .inr (.inr hmem)
    · by_cases heq : old = .inserting active
      · exact .inl ⟨active, hinserting active heq, hid⟩
      · exact .inr (.inl ⟨active, h.mem hmem (Ne.symm heq), hid⟩)
    · exact .inr (.inr (h.mem hmem (Ne.symm hunlisting)))

end Moves

/-! ### Steps -/

variable {m' : Manager} {i : Nat} {old new : Call}

/-- A step that leaves the index as it is. -/
theorem Inv.restore (hinv : Inv m) (h : Moves m m' i old new) (hlisted : ∀ c, m'.listed c = m.listed c)
    (hcondemned : ∀ other, other ∈ m'.subscriptions ∨ .inserting other ∈ m.calls →
      Condemned m other.id → Condemned m' other.id)
    (hadded : ∀ other ∈ m'.subscriptions, other ∈ m.subscriptions ∨ old = .inserting other)
    (hremoved : ∀ c, ∀ id ∈ m.listed c, ∀ other ∈ m.subscriptions, other.id = id →
      other ∈ m'.subscriptions ∨ .unlisting id c ∈ m'.calls)
    (hinserting : ∀ other, old = .inserting other → other ∈ m'.subscriptions ∧ new = .returned)
    (hunlisting : ∀ id c, old ≠ .unlisting id c) (hnew : CallOk m' i new) : Inv m' := by
  have htracked : ∀ other, other ∈ m'.subscriptions ∨ .inserting other ∈ m.calls → Tracked m other →
      Tracked m' other := by
    rintro other hother (hmem | hdoomed)
    · rw [Tracked, hlisted]
      exact .inl hmem
    · exact .inr (hcondemned other hother hdoomed)
  have hstoring : ∀ {other}, old = .inserting other → other.id = i ∧ Made m other ∧ Tracked m other := by
    rintro other rfl
    exact hinv.calls i _ h.before
  constructor
  · apply h.callOk hinv
    · intro other hother _ htrack
      exact htracked other (.inr hother) htrack
    · intro other hother
      rcases hadded other hother with hother | hold
      · exact .inl hother
      · refine .inr ?_
        rw [(hstoring hold).1, h.before]
        intro heq
        exact h.open' (some.inj heq)
    · intro c id hid
      rw [hlisted] at hid
      exact .inl hid
    · intro c hquiet
      rw [hlisted]
      exact hquiet.1
    · exact hnew
  · intro other hother
    rcases hadded other hother with hother' | hold
    · exact h.storedOk (hinv.stored other hother') (htracked other (.inl hother))
    · obtain ⟨hid, hmade, htrack⟩ := hstoring hold
      refine ⟨h.made hmade, ?_, htracked other (.inl hother) htrack⟩
      rw [hid, h.getElem_self, (hinserting other hold).2]
  · intro c id hid
    rw [hlisted] at hid
    apply h.listedOk (hinv.listed c id hid)
    · intro other hother heq _
      exact hremoved c id hid other hother heq
    · intro other hold
      exact (hinserting other hold).1
    · exact hunlisting id c
  · intro c
    rw [hlisted]
    exact hinv.capped c

/-- A step that leaves both maps as they are, of a call that accounts for nothing. -/
theorem Inv.pass (hinv : Inv m) (h : Moves m m' i old new) (hstored : m'.subscriptions = m.subscriptions)
    (hlisted : ∀ c, m'.listed c = m.listed c) (hinserting : ∀ active, old ≠ .inserting active)
    (hunlisting : ∀ id c, old ≠ .unlisting id c) (hremoving : ∀ c second id ids, old ≠ .removing c second (id :: ids))
    (hnew : CallOk m' i new) : Inv m' := by
  refine hinv.restore h hlisted ?_ ?_ ?_ (fun active heq => absurd heq (hinserting active)) hunlisting hnew
  · intro other _ hcondemned
    apply h.condemned hcondemned
    rintro c second ids heq hid
    cases ids with
    | nil => cases hid
    | cons id ids => exact hremoving c second id ids heq
  · intro other hother
    rw [hstored] at hother
    exact .inl hother
  · intro c id _ other hother _
    rw [hstored]
    exact .inl hother

theorem Inv.push (hinv : Inv m) (hcall : m.calls[i]? = some (.subscribing active))
    (hroom : (m.listed active.connectionId).length < maxSubscriptionsPerConnection) :
    Inv ((m.index active.connectionId (some (m.listed active.connectionId ++ [active.id]))).goOn i
      (.inserting active)) := by
  obtain ⟨hid, hmade⟩ := hinv.calls i _ hcall
  have hmem : .subscribing active ∈ m.calls := mem_iff_getElem?.mpr ⟨i, hcall⟩
  generalize hm' : (m.index active.connectionId (some (m.listed active.connectionId ++ [active.id]))).goOn i
      (.inserting active) = m'
  have hlisted : ∀ c, m'.listed c =
      if c = active.connectionId then m.listed active.connectionId ++ [active.id] else m.listed c := by
    intro c
    rw [← hm', listed_goOn, listed_index]
    rfl
  have hgrows : ∀ c, ∀ id ∈ m.listed c, id ∈ m'.listed c := by
    intro c id hmem
    rw [hlisted]
    split_ifs with hc
    · rw [← hc]
      exact mem_append_left _ hmem
    · exact hmem
  have hadds : ∀ c, ∀ id ∈ m'.listed c, id ∈ m.listed c ∨ (id = active.id ∧ c = active.connectionId) := by
    intro c id hmem
    rw [hlisted] at hmem
    split_ifs at hmem with hc
    · rcases mem_append.mp hmem with hmem | hmem
      · rw [hc]
        exact .inl hmem
      · exact .inr ⟨mem_singleton.mp hmem, hc⟩
    · exact .inl hmem
  have h : Moves m m' i (.subscribing active) (.inserting active) := by
    subst hm'
    exact ⟨hcall, rfl, rfl, nofun, nofun⟩
  have hown : active.id ∈ m'.listed active.connectionId := by
    rw [hlisted, if_pos rfl]
    exact mem_append_right _ (mem_singleton_self _)
  have htracked : ∀ other, Tracked m other → Tracked m' other := by
    rintro other (hmem | hcondemned)
    · exact .inl (hgrows _ _ hmem)
    · exact .inr (h.condemned hcondemned nofun)
  have hstored : m'.subscriptions = m.subscriptions := by
    rw [← hm']
    rfl
  constructor
  · apply h.callOk hinv
    · intro other _ _ htrack
      exact htracked other htrack
    · intro other hother
      rw [hstored] at hother
      exact .inl hother
    · intro c id hmem'
      rcases hadds c id hmem' with hmem' | ⟨rfl, _⟩
      · exact .inl hmem'
      · refine .inr ?_
        rintro ⟨call, hcall', hne⟩
        rw [hid, hcall] at hcall'
        exact hne active (some.inj hcall').symm
    · intro c hquiet
      rw [hlisted, if_neg (hquiet.2 active hmem).symm]
      exact hquiet.1
    · exact ⟨hid, h.made hmade, .inl hown⟩
  · intro other hother
    rw [hstored] at hother
    exact h.storedOk (hinv.stored other hother) (htracked other)
  · intro c id hmem'
    rcases hadds c id hmem' with hmem' | ⟨rfl, rfl⟩
    · apply h.listedOk (hinv.listed c id hmem')
      · intro other hother _ _
        rw [hstored]
        exact .inl hother
      · nofun
      · nofun
    · refine ⟨⟨_, ?_, h.listing⟩, ?_, .inr (.inl ⟨active, h.new_mem, rfl⟩)⟩
      · rw [hid]
        exact h.getElem_self
      · obtain ⟨request, definition, hrequest, hactive⟩ := h.made hmade
        refine ⟨request, hrequest, ?_⟩
        rw [hactive]
        rfl
  · intro c
    rw [hlisted]
    split_ifs with hc
    · rw [length_append, length_singleton]
      exact hroom
    · exact hinv.capped c

theorem Inv.insert (hinv : Inv m) (hcall : m.calls[i]? = some (.inserting active)) :
    Inv ({ m with subscriptions := active :: m.subscriptions }.goOn i .returned) := by
  have h : Moves m ({ m with subscriptions := active :: m.subscriptions }.goOn i .returned) i (.inserting active)
      .returned := ⟨hcall, rfl, rfl, nofun, nofun⟩
  refine hinv.restore h (fun _ => rfl) ?_ ?_ ?_ ?_ nofun trivial
  · intro other _ hcondemned
    exact h.condemned hcondemned nofun
  · intro other hother
    rcases mem_cons.mp hother with rfl | hother
    · exact .inr rfl
    · exact .inl hother
  · intro c id _ other hother _
    exact .inl (mem_cons_of_mem _ hother)
  · rintro other heq
    rw [Call.inserting.inj heq]
    exact ⟨mem_cons_self, rfl⟩

variable {c : String}

/-- Two subscriptions of one identifier are of one connection. -/
theorem Inv.connection_eq (hinv : Inv m)
    (hactive : active ∈ m.subscriptions) (hid : active.id = id) (hok : ListedOk m c id) : active.connectionId = c := by
  obtain ⟨request, definition, hrequest, heq⟩ := (hinv.stored active hactive).made
  obtain ⟨request', hrequest', hc⟩ := hok.own
  rw [hid, hrequest'] at hrequest
  rw [heq, ← hc, some.inj hrequest]
  rfl

theorem Inv.unsubscribe (hinv : Inv m)
    (hcall : m.calls[i]? = some (.unsubscribing id)) (hactive : active ∈ m.subscriptions) (hid : active.id = id) :
    Inv ((m.remove id).goOn i (.unlisting id active.connectionId)) := by
  have h : Moves m ((m.remove id).goOn i (.unlisting id active.connectionId)) i (.unsubscribing id)
      (.unlisting id active.connectionId) := ⟨hcall, rfl, rfl, nofun, nofun⟩
  refine hinv.restore h (fun _ => rfl) ?_ ?_ ?_ nofun nofun ⟨h.done ?_, ?_⟩
  · intro other _ hcondemned
    exact h.condemned hcondemned nofun
  · intro other hother
    exact .inl (mem_remove.mp hother).1
  · intro c id' hmem other hother hother'
    by_cases heq : id' = id
    · -- The subscription that was removed is the one that the call takes off the index.
      refine .inr ?_
      rw [← hinv.connection_eq hactive (hid.trans heq.symm) (hinv.listed c id' hmem), heq]
      exact h.new_mem
    · refine .inl (mem_remove.mpr ⟨hother, ?_⟩)
      rw [hother']
      exact heq
  · rw [← hid]
    exact (hinv.stored active hactive).done
  · intro other hother
    exact (mem_remove.mp hother).2

theorem Inv.unlist (hinv : Inv m) (h : Moves m m' i (.unlisting id c) .returned)
    (hstored : m'.subscriptions = m.subscriptions)
    (hlisted : ∀ c', m'.listed c' = if c' = c then (m.listed c).filter (· ≠ id) else m.listed c') : Inv m' := by
  obtain ⟨hdone, hgone⟩ := hinv.calls i _ h.before
  have hshrinks : ∀ c', (m'.listed c').Sublist (m.listed c') := by
    intro c'
    rw [hlisted]
    split_ifs with hc
    · rw [hc]
      exact filter_sublist
    · exact List.Sublist.refl _
  have hkeeps : ∀ c', ∀ id' ∈ m.listed c', id' ≠ id → id' ∈ m'.listed c' := by
    intro c' id' hmem hne
    rw [hlisted]
    split_ifs with hc
    · rw [hc] at hmem
      exact mem_filter.mpr ⟨hmem, decide_eq_true hne⟩
    · exact hmem
  have hremoved : id ∉ m'.listed c := by
    rw [hlisted, if_pos rfl]
    intro hmem
    exact of_decide_eq_true (mem_filter.mp hmem).2 rfl
  have htracked : ∀ other, other.id ≠ id → Tracked m other → Tracked m' other := by
    rintro other hne (hmem | hcondemned)
    · exact .inl (hkeeps _ _ hmem hne)
    · exact .inr (h.condemned hcondemned nofun)
  constructor
  · apply h.callOk hinv
    · intro other hother _ htrack
      refine htracked other ?_ htrack
      intro heq
      obtain ⟨j, hj⟩ := mem_iff_getElem?.mp hother
      rw [← heq, (hinv.calls j _ hj).1, hj] at hdone
      cases hdone
    · intro other hother
      rw [hstored] at hother
      exact .inl hother
    · intro c' id' hmem
      exact .inl ((hshrinks c').subset hmem)
    · intro c' hquiet
      exact sublist_nil.mp (hquiet.1 ▸ hshrinks c')
    · trivial
  · intro other hother
    rw [hstored] at hother
    exact h.storedOk (hinv.stored other hother) (htracked other (hgone other hother))
  · intro c' id' hmem
    apply h.listedOk (hinv.listed c' id' ((hshrinks c').subset hmem))
    · intro other hother _ _
      rw [hstored]
      exact .inl hother
    · nofun
    · intro heq
      obtain ⟨rfl, rfl⟩ := Call.unlisting.inj heq
      exact hremoved hmem
  · intro c'
    exact (hshrinks c').length_le.trans (hinv.capped c')

theorem Inv.disconnect {second : Bool} (hinv : Inv m) (hcall : m.calls[i]? = some (.disconnecting c second))
    (horderly : second = true → ∀ active, .subscribing active ∈ m.calls → active.connectionId ≠ c) :
    Inv ((m.index c none).goOn i (.removing c second (m.listed c))) := by
  generalize hm' : (m.index c none).goOn i (.removing c second (m.listed c)) = m'
  have h : Moves m m' i (.disconnecting c second) (.removing c second (m.listed c)) := by
    subst hm'
    exact ⟨hcall, rfl, rfl, nofun, nofun⟩
  have hlisted : ∀ c', m'.listed c' = if c' = c then [] else m.listed c' := by
    intro c'
    rw [← hm', listed_goOn, listed_index]
    rfl
  have hstored : m'.subscriptions = m.subscriptions := by
    rw [← hm']
    rfl
  have hshrinks : ∀ c', ∀ id ∈ m'.listed c', c' ≠ c ∧ id ∈ m.listed c' := by
    intro c' id hmem
    rw [hlisted] at hmem
    split_ifs at hmem with hc
    · cases hmem
    · exact ⟨hc, hmem⟩
  have htracked : ∀ other, Tracked m other → Tracked m' other := by
    rintro other (hmem | hcondemned)
    · by_cases hc : other.connectionId = c
      · rw [hc] at hmem
        exact .inr ⟨c, second, _, h.new_mem, hmem⟩
      · rw [Tracked, hlisted, if_neg hc]
        exact .inl hmem
    · exact .inr (h.condemned hcondemned nofun)
  constructor
  · apply h.callOk hinv
    · intro other _ _ htrack
      exact htracked other htrack
    · intro other hother
      rw [hstored] at hother
      exact .inl hother
    · intro c' id hmem
      exact .inl (hshrinks c' id hmem).2
    · intro c' hquiet
      rw [hlisted, hquiet.1, ite_self]
    · constructor
      · intro id hid
        have hok := hinv.listed c id hid
        refine ⟨h.begun hok.begun, ?_⟩
        intro c' hmem
        obtain ⟨hne, hmem⟩ := hshrinks c' id hmem
        obtain ⟨request, hrequest, hc⟩ := hok.own
        obtain ⟨request', hrequest', hc'⟩ := (hinv.listed c' id hmem).own
        rw [hrequest] at hrequest'
        exact hne (hc'.symm.trans ((congrArg _ (some.inj hrequest').symm).trans hc))
      · intro hsecond
        constructor
        · rw [hlisted, if_pos rfl]
        · intro other hmem
          exact horderly hsecond other (h.subscribing hmem)
  · intro other hother
    rw [hstored] at hother
    exact h.storedOk (hinv.stored other hother) (htracked other)
  · intro c' id hmem
    apply h.listedOk (hinv.listed c' id (hshrinks c' id hmem).2)
    · intro other hother _ _
      rw [hstored]
      exact .inl hother
    · nofun
    · nofun
  · intro c'
    rw [hlisted]
    split_ifs
    · exact Nat.zero_le _
    · exact hinv.capped c'

theorem Inv.removeOne {second : Bool} {ids : List Nat} (hinv : Inv m)
    (hcall : m.calls[i]? = some (.removing c second (id :: ids)))
    (horderly : ∀ active, .inserting active ∈ m.calls → active.id ≠ id) :
    Inv ((m.remove id).goOn i (.removing c second ids)) := by
  obtain ⟨hids, hquiet⟩ := hinv.calls i _ hcall
  have h : Moves m ((m.remove id).goOn i (.removing c second ids)) i (.removing c second (id :: ids))
      (.removing c second ids) := ⟨hcall, rfl, rfl, nofun, nofun⟩
  refine hinv.restore h (fun _ => rfl) ?_ ?_ ?_ nofun nofun ⟨?_, fun hsecond => h.quiet (hquiet hsecond) ?_⟩
  · rintro other hother ⟨c', second', ids', hmem, hid⟩
    have hne : other.id ≠ id := hother.elim (fun hother => (mem_remove.mp hother).2) (horderly other)
    by_cases heq : Call.removing c' second' ids' = .removing c second (id :: ids)
    · obtain ⟨-, -, rfl⟩ := Call.removing.inj heq
      rcases mem_cons.mp hid with hid | hid
      · exact absurd hid hne
      · exact ⟨c, second, ids, h.new_mem, hid⟩
    · exact ⟨c', second', ids', h.mem hmem heq, hid⟩
  · intro other hother
    exact .inl (mem_remove.mp hother).1
  · intro c' id' hmem other hother hid'
    refine .inl (mem_remove.mpr ⟨hother, ?_⟩)
    intro heq
    rw [hid'] at heq
    exact (hids id mem_cons_self).2 c' (heq ▸ hmem)
  · intro id' hid'
    obtain ⟨hbegun, hunlisted⟩ := hids id' (mem_cons_of_mem _ hid')
    exact ⟨h.begun hbegun, hunlisted⟩
  · exact (hquiet hsecond).1

/-- A call begins; the request it may come with is kept under its number. -/
theorem Inv.append (hinv : Inv m) (hcalls : m'.calls = m.calls ++ [call])
    (hstored : m'.subscriptions = m.subscriptions) (hlisted : ∀ c, m'.listed c = m.listed c)
    (hrequests : ∀ id < m.calls.length, m'.requests id = m.requests id) (hnew : CallOk m' m.calls.length call)
    (hquiet : ∀ active c ids, call = .subscribing active → .removing c true ids ∈ m.calls → active.connectionId ≠ c) :
    Inv m' := by
  have hget : ∀ {id : Nat} {old}, m.calls[id]? = some old → m'.calls[id]? = some old := by
    intro id old hold
    rw [hcalls, List.getElem?_append_left (List.getElem?_eq_some_iff.mp hold).1, hold]
  have hmem : ∀ {old}, old ∈ m.calls → old ∈ m'.calls := by
    intro old hold
    rw [hcalls]
    exact mem_append_left _ hold
  have hbegun : ∀ {id : Nat}, Begun m id → Begun m' id := by
    rintro id ⟨old, hold, hne⟩
    exact ⟨old, hget hold, hne⟩
  have hmade : ∀ {active}, active.id < m.calls.length → Made m active → Made m' active := by
    rintro active hlt ⟨request, definition, hrequest, heq⟩
    refine ⟨request, definition, ?_, heq⟩
    rw [hrequests _ hlt, hrequest]
  have htracked : ∀ active, Tracked m active → Tracked m' active := by
    rintro active (hold | ⟨c, second, ids, hold, hid⟩)
    · rw [Tracked, hlisted]
      exact .inl hold
    · exact .inr ⟨c, second, ids, hmem hold, hid⟩
  constructor
  · intro j old hj
    by_cases hlast : j = m.calls.length
    · rw [hcalls, hlast, getElem?_concat_length] at hj
      rw [hlast, ← some.inj hj]
      exact hnew
    · have hlt : j < m.calls.length := by
        have hlt := (List.getElem?_eq_some_iff.mp hj).1
        rw [hcalls, List.length_append, List.length_singleton] at hlt
        omega
      rw [hcalls, getElem?_append_left hlt] at hj
      have hok := hinv.calls j old hj
      have hold : old ∈ m.calls := mem_iff_getElem?.mpr ⟨j, hj⟩
      cases old with
      | subscribing active =>
        refine ⟨hok.1, hmade ?_ hok.2⟩
        rwa [hok.1]
      | inserting active =>
        refine ⟨hok.1, hmade ?_ hok.2.1, htracked active hok.2.2⟩
        rwa [hok.1]
      | unlisting id c =>
        refine ⟨hget hok.1, ?_⟩
        rw [hstored]
        exact hok.2
      | removing c second ids =>
        constructor
        · intro id hid
          refine ⟨hbegun (hok.1 id hid).1, ?_⟩
          intro c'
          rw [hlisted]
          exact (hok.1 id hid).2 c'
        · intro hsecond
          constructor
          · rw [hlisted]
            exact (hok.2 hsecond).1
          · intro active hactive
            rw [hcalls] at hactive
            rcases mem_append.mp hactive with hactive | hactive
            · exact (hok.2 hsecond).2 active hactive
            · rw [hsecond] at hold
              exact hquiet active c ids (mem_singleton.mp hactive).symm hold
      | unsubscribing _ => trivial
      | disconnecting _ _ => trivial
      | returned => trivial
  · intro active hactive
    rw [hstored] at hactive
    have hok := hinv.stored active hactive
    have hlt := (List.getElem?_eq_some_iff.mp hok.done).1
    exact ⟨hmade hlt hok.made, hget hok.done, htracked active hok.tracked⟩
  · intro c id hid
    rw [hlisted] at hid
    have hok := hinv.listed c id hid
    refine ⟨hbegun hok.begun, ?_, ?_⟩
    · obtain ⟨old, hold, -⟩ := hok.begun
      rw [hrequests _ (List.getElem?_eq_some_iff.mp hold).1]
      exact hok.own
    · rcases hok.accounted with ⟨active, hactive, heq⟩ | ⟨active, hactive, heq⟩ | hunlisting
      · rw [hstored]
        exact .inl ⟨active, hactive, heq⟩
      · exact .inr (.inl ⟨active, hmem hactive, heq⟩)
      · exact .inr (.inr (hmem hunlisting))
  · intro c
    rw [hlisted]
    exact hinv.capped c

theorem Inv.begin {request : Request} (hinv : Inv m) (horderly : Orderly schema m (.call request)) :
    Inv (m.begin schema request) := by
  cases request with
  | subscribe request =>
    simp only [Manager.begin]
    cases hschema : schema request.subscriptionName with
    | none => exact hinv
    | some definition =>
      refine hinv.append rfl rfl (fun _ => rfl) ?_ ?_ ?_
      · intro id hid
        exact Function.update_of_ne hid.ne _ _
      · exact ⟨rfl, request, definition, Function.update_self _ _ _, rfl⟩
      · intro active c ids heq hmem hc
        have hconnection : active.connectionId = request.connectionId := by
          rw [← Call.subscribing.inj heq]
          rfl
        rw [← hc, hconnection] at hmem
        refine horderly ?_ ids hmem
        rw [hschema]
        exact some_ne_none _
  | unsubscribe id | unsubscribeConnection c => exact hinv.append rfl rfl (fun _ => rfl) (fun _ _ => rfl) trivial nofun

theorem Inv.advance (hinv : Inv m) (horderly : Orderly schema m (.advance i)) : Inv (m.advance i) := by
  unfold Manager.advance
  simp only [Orderly] at horderly
  cases hcall : m.calls[i]? with
  | none => exact hinv
  | some call =>
    rw [hcall] at horderly
    cases call with
    | subscribing active =>
      dsimp only
      split_ifs with hfull
      · refine hinv.pass ⟨hcall, rfl, rfl, nofun, nofun⟩ rfl ?_ nofun nofun nofun trivial
        intro c
        rw [listed_goOn, listed_index]
        split_ifs with hc
        · rw [hc]
          rfl
        · rfl
      · exact hinv.push hcall (Nat.lt_of_not_le hfull)
    | inserting active => exact hinv.insert hcall
    | unsubscribing id =>
      dsimp only
      cases hfind : m.subscriptions.find? fun active => active.id = id with
      | none => exact hinv.pass ⟨hcall, rfl, rfl, nofun, nofun⟩ rfl (fun _ => rfl) nofun nofun nofun trivial
      | some active =>
        have hid := find?_some (p := fun active : ActiveSubscription => decide (active.id = id)) hfind
        exact hinv.unsubscribe hcall (mem_of_find?_eq_some hfind) (of_decide_eq_true hid)
    | unlisting id c =>
      dsimp only
      cases hindex : m.subscriptionsByConnection c with
      | none =>
        have hmoves : Moves m (m.goOn i .returned) i (.unlisting id c) .returned :=
          ⟨hcall, rfl, rfl, nofun, nofun⟩
        apply hinv.unlist hmoves rfl
        intro c'
        rw [listed_goOn]
        split_ifs with hc
        · rw [hc, Manager.listed, hindex]
          rfl
        · rfl
      | some ids =>
        have hmoves : Moves m ((m.index c (some (ids.filter (· ≠ id)))).goOn i .returned) i (.unlisting id c)
            .returned := ⟨hcall, rfl, rfl, nofun, nofun⟩
        apply hinv.unlist hmoves rfl
        intro c'
        have hids : m.listed c = ids := by
          rw [Manager.listed, hindex]
          rfl
        rw [listed_goOn, listed_index, hids]
        rfl
    | disconnecting c second =>
      apply hinv.disconnect hcall
      rintro rfl
      exact horderly
    | removing c second ids =>
      cases ids with
      | cons id ids => exact hinv.removeOne hcall horderly
      | nil =>
        cases second with
        | false | true => exact hinv.pass ⟨hcall, rfl, rfl, nofun, nofun⟩ rfl (fun _ => rfl) nofun nofun nofun trivial
    | returned => exact hinv

theorem Inv.publish (hinv : Inv m) (event : SubscriptionEvent) : Inv (m.publish host event) := by
  constructor
  · exact hinv.calls
  · intro active hactive
    obtain ⟨hmade, hdone, htracked⟩ := hinv.stored active hactive
    exact ⟨hmade, hdone, htracked⟩
  · intro c id hid
    obtain ⟨hbegun, hown, haccounted⟩ := hinv.listed c id hid
    exact ⟨hbegun, hown, haccounted⟩
  · exact hinv.capped

theorem Inv.step {event : Event} (hinv : Inv m) (horderly : Orderly schema m event) :
    Inv (m.step host schema event) := by
  cases event with
  | call request => exact hinv.begin horderly
  | advance i => exact hinv.advance horderly
  | publish event => exact hinv.publish event

/-! ### After the last disconnect -/

theorem Quiet.index {c' : String} {ids : Option (List Nat)} (hquiet : Quiet m c)
    (hcall : m.calls[i]? = some old) (hopen : old ≠ .returned) (hlisting : ∀ active, call ≠ .subscribing active)
    (hids : c = c' → ids.getD [] = []) : Quiet ((m.index c' ids).goOn i call) c := by
  have hmoves : Moves m ((m.index c' ids).goOn i call) i old call := ⟨hcall, rfl, rfl, hopen, hlisting⟩
  apply hmoves.quiet hquiet
  rw [listed_goOn, listed_index]
  split_ifs with hc
  · exact hids hc
  · exact hquiet.1

theorem Quiet.pass (hquiet : Quiet m c) (h : Moves m m' i old call) (hlisted : m'.listed c = m.listed c) : Quiet m' c :=
  h.quiet hquiet (hlisted.trans hquiet.1)

/-- A quiet connection stays so, whatever the calls under way do. -/
theorem Quiet.advance (hquiet : Quiet m c) (i : Nat) : Quiet (m.advance i) c := by
  unfold Manager.advance
  cases hcall : m.calls[i]? with
  | none => exact hquiet
  | some call =>
    have hempty : ∀ {c'}, c = c' → m.listed c' = [] := by
      rintro _ rfl
      exact hquiet.1
    cases call with
    | subscribing active =>
      have hne := hquiet.2 active (mem_iff_getElem?.mpr ⟨i, hcall⟩)
      dsimp only
      split_ifs with hfull
      · exact hquiet.index hcall nofun nofun fun hc => absurd hc.symm hne
      · exact hquiet.index hcall nofun nofun fun hc => absurd hc.symm hne
    | inserting active => exact hquiet.pass ⟨hcall, rfl, rfl, nofun, nofun⟩ rfl
    | unsubscribing id =>
      dsimp only
      cases hfind : m.subscriptions.find? fun active => active.id = id with
      | none | some active => exact hquiet.pass ⟨hcall, rfl, rfl, nofun, nofun⟩ rfl
    | unlisting id c' =>
      dsimp only
      cases hindex : m.subscriptionsByConnection c' with
      | none => exact hquiet.pass ⟨hcall, rfl, rfl, nofun, nofun⟩ rfl
      | some ids =>
        have hids : c = c' → (some (ids.filter (· ≠ id))).getD [] = [] := by
          intro hc
          have hnil := hempty hc
          rw [Manager.listed, hindex] at hnil
          rw [show ids = [] from hnil]
          rfl
        exact hquiet.index hcall nofun nofun hids
    | disconnecting c' second => exact hquiet.index hcall nofun nofun fun _ => rfl
    | removing c' second ids =>
      cases ids with
      | cons id ids => exact hquiet.pass ⟨hcall, rfl, rfl, nofun, nofun⟩ rfl
      | nil =>
        cases second with
        | false | true => exact hquiet.pass ⟨hcall, rfl, rfl, nofun, nofun⟩ rfl
    | returned => exact hquiet

theorem Quiet.begin {request : Request} (hquiet : Quiet m c)
    (hother : ∀ subscription, request = .subscribe subscription → schema subscription.subscriptionName ≠ none →
      subscription.connectionId ≠ c) : Quiet (m.begin schema request) c := by
  have happend : ∀ {call}, (∀ active, call = .subscribing active → active.connectionId ≠ c) →
      ∀ active, .subscribing active ∈ m.calls ++ [call] → active.connectionId ≠ c := by
    intro call hcall active hmem
    rcases mem_append.mp hmem with hmem | hmem
    · exact hquiet.2 active hmem
    · exact hcall active (mem_singleton.mp hmem).symm
  cases request with
  | subscribe subscription =>
    simp only [Manager.begin]
    cases hschema : schema subscription.subscriptionName with
    | none => exact hquiet
    | some definition =>
      refine ⟨hquiet.1, happend ?_⟩
      intro active heq
      rw [← Call.subscribing.inj heq]
      apply hother subscription rfl
      rw [hschema]
      exact some_ne_none _
  | unsubscribe id | unsubscribeConnection c' =>
    refine ⟨hquiet.1, happend ?_⟩
    intro active heq
    cases heq

theorem Quiet.run {events : List Event} (hquiet : Quiet m c)
    (hother : ∀ request, .call (.subscribe request) ∈ events → schema request.subscriptionName ≠ none →
      request.connectionId ≠ c) : Quiet (EventRun.run (step host schema) m events) c := by
  induction events generalizing m with
  | nil => exact hquiet
  | cons event rest ih =>
    rw [EventRun.run_cons]
    refine ih ?_ fun request hmem => hother request (mem_cons_of_mem _ hmem)
    cases event with
    | call request =>
      apply hquiet.begin
      rintro subscription rfl
      exact hother subscription mem_cons_self
    | advance i => exact hquiet.advance i
    | publish event => exact hquiet

/-- When no call is under way, the maps account for each other directly. -/
theorem Inv.agree (hinv : Inv m) (hquiescent : m.Quiescent) : m.Agree := by
  constructor
  · intro active hactive
    rcases (hinv.stored active hactive).tracked with hlisted | ⟨c, second, ids, hmem, -⟩
    · exact hlisted
    · cases hquiescent _ hmem
  · intro c id hid
    have hok := hinv.listed c id hid
    rcases hok.accounted with ⟨active, hactive, heq⟩ | ⟨active, hmem, -⟩ | hmem
    · exact ⟨active, hactive, heq, hinv.connection_eq hactive heq hok⟩
    · cases hquiescent _ hmem
    · cases hquiescent _ hmem

/-- In an orderly run the registry is consistent: no connection lists too many subscriptions, and when all calls
have returned the two maps agree and nothing is left of a disconnected connection. -/
theorem registry_consistent (host : Host) (schema : String → Option SubscriptionDefinition) {events : List Event}
    (h : EventRun.Along (step host schema) (Orderly schema) start events) : Consistent host schema events := by
  have hstep : ∀ m event, Inv m → Orderly schema m event → Inv (step host schema m event) :=
    fun _ _ hinv horderly => hinv.step horderly
  have hinv := h.invariant hstep inv_start
  refine ⟨hinv.capped, fun hquiescent => ⟨hinv.agree hquiescent, ?_⟩⟩
  rintro c ⟨before, i, after, rfl, hcall, hother⟩ active hactive hc
  obtain ⟨hbefore, -⟩ := (EventRun.along_append _ _).mp h
  have hearlier := hbefore.invariant hstep inv_start
  -- The disconnect that returns has left the connection quiet, and nothing subscribes after it.
  have hquiet := (hearlier.calls i _ hcall).2 rfl
  have hlater : Quiet (EventRun.run (step host schema) start (before ++ .advance i :: after)) c := by
    rw [EventRun.run_append, EventRun.run_cons]
    exact (hquiet.advance i).run hother
  have hlisted := (hinv.agree hquiescent).1 active hactive
  rw [hc, hlater.1] at hlisted
  cases hlisted

/-- Lower case of ASCII letters, and numbers that never compare. -/
def asciiHost : Host := ⟨String.toLower, fun a b => decide (a = b), fun _ _ => none⟩

def orderSchema (name : String) : Option SubscriptionDefinition :=
  if name = "orderCreated" then some ⟨"orderCreated", "Order", none, none, [], []⟩ else none

def orderRequest : Event := .call (.subscribe ⟨"orderCreated", .null, .null, "c1", []⟩)

/-- A subscription, and after it the disconnect of its connection. -/
def subscribeThenDisconnect : List Event :=
  [orderRequest, .advance 0, .advance 0, .call (.unsubscribeConnection "c1"), .advance 1, .advance 1, .advance 1,
    .advance 1, .advance 1]

theorem registry_consistent_in_turns : Consistent asciiHost orderSchema subscribeThenDisconnect := by
  apply registry_consistent
  refine ⟨?_, trivial, trivial, trivial, trivial, ?_, trivial, ?_, trivial, trivial⟩
  · intro _ ids hmem
    cases hmem
  · intro active hmem
    have hcalls : Call.inserting active ∈ [Call.returned, Call.removing "c1" false [0]] := hmem
    simp at hcalls
  · intro active hmem
    have hcalls : Call.subscribing active ∈ [Call.returned, Call.disconnecting "c1" true] := hmem
    simp at hcalls

/-- A disconnect between the two steps of a subscription. -/
def disconnectInside : List Event :=
  [orderRequest, .advance 0, .call (.unsubscribeConnection "c1"), .advance 1, .advance 1, .advance 1, .advance 1,
    .advance 1, .advance 0]

/-- It leaves a subscription that no connection lists, and that goes on receiving events. -/
theorem disconnect_leaves_orphan : ¬∀ host schema events, Consistent host schema events := by
  intro h
  obtain ⟨-, hagree⟩ := h asciiHost orderSchema disconnectInside
  have hquiescent : (EventRun.run (step asciiHost orderSchema) start disconnectInside).Quiescent := by
    intro call hmem
    have hcalls : call ∈ [Call.returned, Call.returned] := hmem
    simpa using hcalls
  have horphan := (hagree hquiescent).1.1 _ mem_cons_self
  revert horphan
  decide

end FraiseQL.Subscription.Manager
