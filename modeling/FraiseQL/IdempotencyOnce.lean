import FraiseQL.Idempotency

/-! Requests that keep apart run their mutation once. At any time at most one request with a key is between its
check and its end or has produced a response, and within the time to live the store holds that response. -/

namespace FraiseQL.Rest.Idempotency

open World List

variable {config : Config}

/-! ### The handler -/

/-- How a check can end. -/
inductive Checked (config : Config) (now : Nat) (entries : Entries) (post : Post) : Phase × Entries → Prop
  | failed (error : RestError) : Checked config now entries post (.returned (.failed error), entries)
  | bulk (name : String) : post.body.asArray? ≠ none → Checked config now entries post (.bulk name, entries)
  | replayed (key : String) (entry : Entry) : post.idempotencyKey = some key → entries.lookup key = some entry →
      entry.bodyHash = config.hashBody post.body → Checked config now entries post
        (.returned (.replayed entry.origin (storedResponseToRest entry.response post.requestId)), entries)
  | admitted (mutation : String) (vars : List (String × Json)) (status : Nat) :
      (∀ key, post.idempotencyKey = some key → entries.lookup key = none) →
      Checked config now entries post (.admitted mutation vars status, entries)
  | outlived (key : String) (entry : Entry) (result : Phase × Entries) : post.idempotencyKey = some key →
      entries.lookup key = some entry → expired config now entry = true → Checked config now entries post result

theorem admission_cases (post : Post) (resolved : ResolvedRoute) (name : String) :
    (∃ error, admission config post resolved name = .returned (.failed error)) ∨
    ∃ mutation vars status, admission config post resolved name = .admitted mutation vars status := by
  unfold admission
  cases effectiveMutation config name post.resolution with
  | ok mutation => exact Or.inr ⟨_, _, _, rfl⟩
  | error e => exact Or.inl ⟨e, rfl⟩

variable {now : Nat} {entries : Entries}

theorem checked_admission {post : Post} (resolved : ResolvedRoute) (name : String)
    (h : ∀ key, post.idempotencyKey = some key → entries.lookup key = none) :
    Checked config now entries post (admission config post resolved name, entries) := by
  rcases @admission_cases config post resolved name with ⟨error, heq⟩ | ⟨mutation, vars, status, heq⟩
  · rw [heq]
    exact .failed error
  · rw [heq]
    exact .admitted mutation vars status h

theorem handlePost_checked (now : Nat) (entries : Entries) (post : Post) :
    Checked config now entries post (handlePost config now entries post) := by
  unfold handlePost
  cases hresolve : resolve config.table post.relativePath .post with
  | none => exact .failed _
  | some resolved =>
    dsimp only
    cases hname : mutationName "POST" resolved.route with
    | error e => exact .failed e
    | ok name =>
      dsimp only
      split
      · next items hbody =>
          split_ifs
          · refine .bulk name ?_
            rw [hbody]
            exact Option.some_ne_none _
          · exact .failed _
      · cases hkey : post.idempotencyKey with
        | none =>
          apply checked_admission
          intro key h
          rw [hkey] at h
          cases h
        | some key =>
          dsimp only
          unfold check
          cases hlookup : entries.lookup key with
          | none =>
            apply checked_admission
            intro key' h
            rw [hkey] at h
            rw [← Option.some.inj h, hlookup]
          | some entry =>
            dsimp only
            split_ifs with hexpired hhash
            · exact .outlived key entry _ hkey hlookup hexpired
            · exact .replayed key entry hkey hlookup hhash
            · exact .failed _

/-! ### The store -/

variable {key : String} {entry : Entry}

theorem lookup_filter {p : String × Entry → Bool}
    (hlookup : entries.lookup key = some entry) (hp : ∀ e ∈ entries, e.1 = key → p e = true) :
    (entries.filter p).lookup key = some entry := by
  induction entries with
  | nil => cases hlookup
  | cons e entries ih =>
    obtain ⟨k, v⟩ := e
    by_cases hk : key = k
    · have hkeep : p (k, v) = true := hp _ mem_cons_self hk.symm
      rw [filter_cons_of_pos hkeep]
      rw [hk, lookup_cons_self] at hlookup ⊢
      exact hlookup
    · have hbeq : (key == k) = false := beq_eq_false_iff_ne.mpr hk
      rw [lookup_cons, hbeq] at hlookup
      have hrest := ih hlookup fun e he => hp e (mem_cons_of_mem _ he)
      by_cases hkeep : p (k, v) = true
      · rw [filter_cons_of_pos hkeep, lookup_cons, hbeq]
        exact hrest
      · rw [filter_cons_of_neg hkeep]
        exact hrest

/-- With room in the store, a response is added and only outlived ones go. -/
theorem store_eq (hroom : entries.length < config.maxEntries) : store config now entries key entry =
      (evictExpired config now entries).filter (fun e => e.1 ≠ key) ++ [(key, entry)] := by
  have hlt : (evictExpired config now entries).length < config.maxEntries :=
    Nat.lt_of_le_of_lt (length_filter_le _ _) hroom
  unfold store
  dsimp only
  rw [if_neg (Nat.not_le_of_lt hlt)]

theorem mem_evictExpired {e : String × Entry}
    (h : e ∈ evictExpired config now entries) : e ∈ entries := (mem_filter.mp h).1

/-- A response is still there when none under its key is outlived. -/
theorem lookup_evictExpired
    (hlookup : entries.lookup key = some entry) (hlive : ∀ e ∈ entries, e.1 = key → expired config now e.2 = false) :
    (evictExpired config now entries).lookup key = some entry := by
  apply lookup_filter hlookup
  intro e he hkey
  apply decide_eq_true
  intro hmem
  obtain ⟨e', he', hkey'⟩ := mem_map.mp hmem
  obtain ⟨hwalk, hexpired⟩ := mem_filter.mp (mem_of_mem_take he')
  have hdead := hlive e' ((config.walk_perm entries).mem_iff.mp hwalk) (hkey'.trans hkey)
  rw [hexpired] at hdead
  cases hdead

/-! ### Invariant -/

namespace World

variable {w : World}

/-- A request that is to run the mutation, has run it, or has produced a response. -/
def Holding : Phase → Prop
  | .admitted .. => True
  | .executed _ => True
  | .returned (.produced ..) => True
  | _ => False

/-- The mutation of a request has run with success. -/
def Succeeded : Phase → Prop
  | .executed _ => True
  | .returned (.produced ..) => True
  | _ => False

theorem Succeeded.holding {phase : Phase} (h : Succeeded phase) : Holding phase := by
  unfold Succeeded at h
  split at h
  · trivial
  · trivial
  · cases h

/-- What holds of a request with a key. -/
def PhaseOk (config : Config) (w : World) (key : String) (i : Nat) (post : Post) : Phase → Prop
  | .bulk _ => False
  | .executed response => statusCode? response.status = some response.status
  | .returned (.produced response storedAt) => statusCode? response.status = some response.status ∧
      (w.now - storedAt ≤ config.ttl → ∃ entry, w.entries.lookup key = some entry ∧ entry.origin = i)
  | .returned (.replayed origin response) => ∃ producer produced storedAt,
      w.At origin producer (.returned (.produced produced storedAt)) ∧ producer.idempotencyKey = some key ∧
      SameCaller config post producer ∧ response.status = produced.status ∧ response.body = produced.body
  | _ => True

/-- An entry is the response of the request that wrote it. -/
def EntryOk (config : Config) (w : World) (key : String) (entry : Entry) : Prop :=
  ∃ producer response, w.At entry.origin producer (.returned (.produced response entry.createdAt)) ∧
    producer.idempotencyKey = some key ∧ entry.response = ⟨response.status, response.headers, response.body⟩ ∧
    entry.bodyHash = config.hashBody producer.body

structure Inv (config : Config) (w : World) : Prop where
  alone : ∀ key i j a b φ ψ, w.At i a φ → w.At j b ψ → a.idempotencyKey = some key → b.idempotencyKey = some key →
    Holding φ → Holding ψ → i = j
  phase : ∀ key i post φ, w.At i post φ → post.idempotencyKey = some key → PhaseOk config w key i post φ
  entry : ∀ e ∈ w.entries, EntryOk config w e.1 e.2
  ran : ∀ e ∈ w.executions, ∃ post φ, w.At e.1 post φ ∧ (e.2 = true → post.idempotencyKey ≠ none → Succeeded φ)
  order : w.executions.Pairwise fun later earlier => ∀ key a b, w.Carries later.1 key a → w.Carries earlier.1 key b →
    earlier.2 = false

theorem inv_start : Inv config start := by
  refine ⟨?_, ?_, ?_, ?_, List.Pairwise.nil⟩
  · intro _ _ _ _ _ _ _ h
    cases h
  · intro _ _ _ _ h
    cases h
  · intro _ h
    cases h
  · intro _ h
    cases h

variable {φ : Phase}

theorem At.unique {i : Nat} {a b : Post} {ψ : Phase} (ha : w.At i a φ) (hb : w.At i b ψ) : a = b ∧ φ = ψ :=
  Prod.mk.inj (Option.some.inj (ha.symm.trans hb))

/-- An entry under a key, and the request that produced it. -/
theorem Inv.stored (hinv : Inv config w) {key : String} {entry : Entry} (h : w.entries.lookup key = some entry) :
    EntryOk config w key entry := by
  obtain ⟨before, after, heq, -⟩ := lookup_eq_some_iff.mp h
  apply hinv.entry (key, entry)
  rw [heq]
  exact mem_append_right _ mem_cons_self

/-- One request has gone from a phase to another. -/
structure Turns (w w' : World) (i : Nat) (post : Post) (φ φ' : Phase) : Prop where
  before : w.At i post φ
  after : w'.posts = w.posts.set i (post, φ')
  now : w'.now = w.now
  unproduced : ∀ response storedAt, φ ≠ .returned (.produced response storedAt)

namespace Turns

variable {w' : World} {i : Nat} {post : Post} {φ φ' : Phase}

section

variable (h : Turns w w' i post φ φ')
include h

theorem self : w'.At i post φ' := by
  unfold At
  rw [h.after]
  exact List.getElem?_set_self (List.getElem?_eq_some_iff.mp h.before).1

variable {j : Nat}

theorem other (hj : j ≠ i) (a : Post) (ψ : Phase) : w'.At j a ψ ↔ w.At j a ψ := by
  unfold At
  rw [h.after, getElem?_set_ne hj.symm]

variable {a : Post}

/-- A request stays what it is; only one may be in another phase. -/
theorem cases {ψ : Phase} (hat : w'.At j a ψ) : (j = i ∧ a = post ∧ ψ = φ') ∨ (j ≠ i ∧ w.At j a ψ) := by
  by_cases hj : j = i
  · rw [hj] at hat
    exact Or.inl ⟨hj, hat.unique h.self⟩
  · exact Or.inr ⟨hj, (h.other hj a ψ).mp hat⟩

theorem carries {key : String} (hc : w'.Carries j key a) : w.Carries j key a := by
  obtain ⟨⟨ψ, hat⟩, hkey⟩ := hc
  rcases h.cases hat with ⟨rfl, rfl, -⟩ | ⟨-, hat⟩
  · exact ⟨⟨φ, h.before⟩, hkey⟩
  · exact ⟨⟨ψ, hat⟩, hkey⟩

/-- A produced response stays. -/
theorem produced {response : RestResponse} {storedAt : Nat} (hat : w.At j a (.returned (.produced response storedAt))) :
    w'.At j a (.returned (.produced response storedAt)) := by
  by_cases hj : j = i
  · rw [hj] at hat
    exact absurd (h.before.unique hat).2 (h.unproduced response storedAt)
  · exact (h.other hj a _).mpr hat

theorem entryOk {key : String} {entry : Entry} (hok : EntryOk config w key entry) : EntryOk config w' key entry := by
  obtain ⟨producer, response, hat, hfacts⟩ := hok
  exact ⟨producer, response, h.produced hat, hfacts⟩

/-- The invariant after a request has gone on. -/
theorem inv (hinv : Inv config w)
    (halone : Holding φ' → ∀ key j b ψ, post.idempotencyKey = some key → j ≠ i → w.At j b ψ →
      b.idempotencyKey = some key → ¬Holding ψ)
    (hnew : ∀ key, post.idempotencyKey = some key → PhaseOk config w' key i post φ')
    (hkept : ∀ key j b response storedAt, j ≠ i → w.At j b (.returned (.produced response storedAt)) →
      b.idempotencyKey = some key → w.now - storedAt ≤ config.ttl →
      ∃ entry, w'.entries.lookup key = some entry ∧ entry.origin = j)
    (hentries : ∀ e ∈ w'.entries, EntryOk config w' e.1 e.2)
    (hran : ∀ e ∈ w'.executions, ∃ post ψ, w'.At e.1 post ψ ∧
      (e.2 = true → post.idempotencyKey ≠ none → Succeeded ψ))
    (horder : w'.executions.Pairwise fun later earlier => ∀ key a b, w.Carries later.1 key a →
      w.Carries earlier.1 key b → earlier.2 = false) : Inv config w' := by
  refine ⟨?_, ?_, hentries, hran, ?_⟩
  · intro key j l a b ψ χ hj hl hkey hkey' hholding hholding'
    rcases h.cases hj with ⟨rfl, rfl, rfl⟩ | ⟨hne, hj⟩
    · rcases h.cases hl with ⟨rfl, -, -⟩ | ⟨hne', hl⟩
      · rfl
      · exact absurd hholding' (halone hholding key l b χ hkey hne' hl hkey')
    · rcases h.cases hl with ⟨rfl, rfl, rfl⟩ | ⟨-, hl⟩
      · exact absurd hholding (halone hholding' key j a ψ hkey' hne hj hkey)
      · exact hinv.alone key j l a b ψ χ hj hl hkey hkey' hholding hholding'
  · intro key j a ψ hj hkey
    rcases h.cases hj with ⟨rfl, rfl, rfl⟩ | ⟨hne, hj⟩
    · exact hnew key hkey
    · have hok := hinv.phase key j a ψ hj hkey
      unfold PhaseOk at hok ⊢
      split at hok
      · exact hok
      · exact hok
      · next response storedAt _ =>
          refine ⟨hok.1, ?_⟩
          rw [h.now]
          exact hkept key j a response storedAt hne hj hkey
      · obtain ⟨producer, produced, storedAt, hat, hfacts⟩ := hok
        exact ⟨producer, produced, storedAt, h.produced hat, hfacts⟩
      · trivial
  · apply horder.imp
    intro later earlier hpair key a b hlater hearlier
    exact hpair key a b (h.carries hlater) (h.carries hearlier)

end

end Turns

variable {i : Nat}

theorem Inv.arrive (hinv : Inv config w) (post : Post) :
    Inv config { w with posts := w.posts ++ [(post, .arrived)] } := by
  have hold : ∀ {j a ψ}, w.At j a ψ → World.At { w with posts := w.posts ++ [(post, .arrived)] } j a ψ := by
    intro j a ψ hat
    unfold At at hat ⊢
    rw [List.getElem?_append_left (List.getElem?_eq_some_iff.mp hat).1]
    exact hat
  have hcases : ∀ {j a ψ}, World.At { w with posts := w.posts ++ [(post, .arrived)] } j a ψ →
      w.At j a ψ ∨ ψ = .arrived := by
    intro j a ψ hat
    unfold At at hat ⊢
    by_cases hj : j < w.posts.length
    · rw [getElem?_append_left hj] at hat
      exact Or.inl hat
    · have hmem := mem_of_getElem? (getElem?_append_right (Nat.le_of_not_lt hj) ▸ hat)
      exact Or.inr (Prod.mk.inj (mem_singleton.mp hmem)).2
  have hcarries : ∀ {j key a}, (∃ b φ, w.At j b φ) →
      World.Carries { w with posts := w.posts ++ [(post, .arrived)] } j key a → w.Carries j key a := by
    rintro j key a ⟨b, φ, hat⟩ ⟨⟨ψ, hat'⟩, hkey⟩
    obtain ⟨rfl, rfl⟩ := (hold hat).unique hat'
    exact ⟨⟨φ, hat⟩, hkey⟩
  refine ⟨?_, ?_, ?_, ?_, ?_⟩
  · intro key j l a b ψ χ hj hl hkey hkey' hholding hholding'
    rcases hcases hj with hj | rfl
    · rcases hcases hl with hl | rfl
      · exact hinv.alone key j l a b ψ χ hj hl hkey hkey' hholding hholding'
      · cases hholding'
    · cases hholding
  · intro key j a ψ hj hkey
    rcases hcases hj with hj | rfl
    · have hok := hinv.phase key j a ψ hj hkey
      unfold PhaseOk at hok ⊢
      split at hok
      · exact hok
      · exact hok
      · exact hok
      · obtain ⟨producer, produced, storedAt, hat, hfacts⟩ := hok
        exact ⟨producer, produced, storedAt, hold hat, hfacts⟩
      · trivial
    · trivial
  · intro e he
    obtain ⟨producer, response, hat, hfacts⟩ := hinv.entry e he
    exact ⟨producer, response, hold hat, hfacts⟩
  · intro e he
    obtain ⟨a, φ, hat, hfacts⟩ := hinv.ran e he
    exact ⟨a, φ, hold hat, hfacts⟩
  · apply hinv.order.imp_of_mem
    intro later earlier hlater hearlier hpair key a b ha hb
    obtain ⟨p, φ, hp, -⟩ := hinv.ran later hlater
    obtain ⟨q, ψ, hq, -⟩ := hinv.ran earlier hearlier
    exact hpair key a b (hcarries ⟨p, φ, hp⟩ ha) (hcarries ⟨q, ψ, hq⟩ hb)

theorem Inv.elapse (hinv : Inv config w) (time : Nat) : Inv config { w with now := w.now + time } := by
  refine ⟨hinv.alone, ?_, hinv.entry, hinv.ran, hinv.order⟩
  intro key j a ψ hj hkey
  have hok := hinv.phase key j a ψ hj hkey
  unfold PhaseOk at hok ⊢
  split at hok
  · exact hok
  · exact hok
  · refine ⟨hok.1, ?_⟩
    intro hlive
    apply hok.2
    dsimp only at hlive
    omega
  · exact hok
  · trivial

theorem statusCode?_getD (status fallback : Nat) (h : 100 ≤ fallback ∧ fallback ≤ 999) :
    statusCode? ((statusCode? status).getD fallback) = some ((statusCode? status).getD fallback) := by
  by_cases hvalid : 100 ≤ status ∧ status ≤ 999
  · simp [statusCode?, hvalid]
  · simp [statusCode?, hvalid, h]

variable {w' : World} {post : Post}

/-- A step of one request that leaves the store and the executions alone. -/
theorem Inv.turn {φ' : Phase} (hinv : Inv config w) (h : Turns w w' i post φ φ')
    (hentries : w'.entries = w.entries) (hexecutions : w'.executions = w.executions)
    (hunsucceeded : ¬Succeeded φ)
    (halone : Holding φ' → ∀ key j b ψ, post.idempotencyKey = some key → j ≠ i → w.At j b ψ →
      b.idempotencyKey = some key → ¬Holding ψ)
    (hnew : ∀ key, post.idempotencyKey = some key → PhaseOk config w' key i post φ') : Inv config w' := by
  apply h.inv hinv halone hnew
  · intro key j b response storedAt _ hat hkey hlive
    rw [hentries]
    exact (hinv.phase key j b _ hat hkey).2 hlive
  · intro e he
    rw [hentries] at he
    exact h.entryOk (hinv.entry e he)
  · intro e he
    rw [hexecutions] at he
    obtain ⟨a, ψ, hat, hsucceeded⟩ := hinv.ran e he
    by_cases hi : e.1 = i
    · rw [hi] at hat ⊢
      obtain ⟨rfl, rfl⟩ := h.before.unique hat
      exact ⟨post, φ', h.self, fun htrue hkey => absurd (hsucceeded htrue hkey) hunsucceeded⟩
    · exact ⟨a, ψ, (h.other hi a ψ).mpr hat, hsucceeded⟩
  · rw [hexecutions]
    exact hinv.order

theorem Inv.check (hinv : Inv config w) (hscope : InScope config w (.check i)) (horderly : Orderly config w (.check i)) :
    Inv config (w.step config (.check i)) := by
  unfold step
  dsimp only
  split
  · next post hpost =>
      have hat : w.At i post .arrived := hpost
      have hlive : ∀ key entry, post.idempotencyKey = some key → w.entries.lookup key = some entry →
          expired config w.now entry = false := by
        intro key entry hkey hlookup
        obtain ⟨producer, response, hproduced, hkey', -⟩ := hinv.stored hlookup
        have hage := hscope post hat key hkey entry.origin producer response _ hproduced hkey'
        exact decide_eq_false (Nat.not_lt_of_le hage)
      have hturns : ∀ phase, Turns w ({ w with entries := w.entries }.setPhase i post phase) i post .arrived phase :=
        fun phase => ⟨hat, rfl, rfl, nofun⟩
      generalize hresult : handlePost config w.now w.entries post = result
      have hchecked := @handlePost_checked config w.now w.entries post
      rw [hresult] at hchecked
      cases hchecked with
      | failed error => exact hinv.turn (hturns _) rfl rfl id nofun fun _ _ => trivial
      | bulk name harray =>
        refine hinv.turn (hturns _) rfl rfl id nofun ?_
        intro key hkey
        exact absurd (horderly post hat key hkey).1 harray
      | replayed key entry hkey hlookup hhash =>
        refine hinv.turn (hturns _) rfl rfl id nofun ?_
        intro key' hkey'
        obtain rfl : key = key' := Option.some.inj (hkey.symm.trans hkey')
        obtain ⟨producer, response, hproduced, hkeyp, hresponse, hbody⟩ := hinv.stored hlookup
        obtain ⟨hcaller, -⟩ := ((horderly post hat key hkey).2 entry.origin producer _ hproduced hkeyp).2 response
          entry.createdAt rfl (hbody.symm.trans hhash)
        have hstatus := (hinv.phase key entry.origin producer _ hproduced hkeyp).1
        refine ⟨producer, response, entry.createdAt, (hturns _).produced hproduced, hkeyp, hcaller, ?_, ?_⟩
        · rw [hresponse]
          unfold storedResponseToRest
          dsimp only
          rw [hstatus, Option.getD_some]
        · rw [hresponse]
          rfl
      | admitted mutation vars status hnone =>
        refine hinv.turn (hturns _) rfl rfl id ?_ fun _ _ => trivial
        intro _ key j b ψ hkey hj hb hkey' hholding
        have hpending := ((horderly post hat key hkey).2 j b ψ hb hkey').1
        unfold Holding at hholding
        split at hholding
        · exact hpending trivial
        · exact hpending trivial
        · next response storedAt =>
            have hage := hscope post hat key hkey j b response storedAt hb hkey'
            obtain ⟨entry, hlookup, -⟩ := (hinv.phase key j b _ hb hkey').2 hage
            rw [hnone key hkey] at hlookup
            cases hlookup
        · exact hholding
      | outlived key entry _ hkey hlookup hexpired =>
        rw [hlive key entry hkey hlookup] at hexpired
        cases hexpired
  · exact hinv

/-- The mutation of a request runs: with its key, no other has run with success. -/
theorem Inv.ran_step {φ' : Phase} {success : Bool} (hinv : Inv config w)
    (h : Turns w w' i post φ φ') (hentries : w'.entries = w.entries)
    (hexecutions : w'.executions = (i, success) :: w.executions)
    (hopen : ∀ key, post.idempotencyKey = some key → Holding φ ∧ ¬Succeeded φ)
    (hsuccess : success = true → Succeeded φ') (hholding : Holding φ' → Holding φ ∨ post.idempotencyKey = none)
    (hnew : ∀ key, post.idempotencyKey = some key → PhaseOk config w' key i post φ') : Inv config w' := by
  apply h.inv hinv _ hnew
  · intro key j b response storedAt _ hat hkey hlive
    rw [hentries]
    exact (hinv.phase key j b _ hat hkey).2 hlive
  · intro e he
    rw [hentries] at he
    exact h.entryOk (hinv.entry e he)
  · intro e he
    rw [hexecutions] at he
    rcases mem_cons.mp he with rfl | he
    · exact ⟨post, φ', h.self, fun htrue _ => hsuccess htrue⟩
    · obtain ⟨a, ψ, hat, hsucceeded⟩ := hinv.ran e he
      by_cases hi : e.1 = i
      · rw [hi] at hat ⊢
        obtain ⟨rfl, rfl⟩ := h.before.unique hat
        refine ⟨post, φ', h.self, ?_⟩
        intro htrue hkey
        obtain ⟨key, hkey'⟩ := Option.ne_none_iff_exists'.mp hkey
        exact absurd (hsucceeded htrue hkey) (hopen key hkey').2
      · exact ⟨a, ψ, (h.other hi a ψ).mpr hat, hsucceeded⟩
  · rw [hexecutions]
    refine List.Pairwise.cons ?_ hinv.order
    rintro e he key a b ⟨⟨ψ, ha⟩, hkeya⟩ ⟨⟨χ, hb⟩, hkeyb⟩
    obtain ⟨rfl, rfl⟩ := h.before.unique ha
    obtain ⟨hholds, hunsucceeded⟩ := hopen key hkeya
    -- An earlier success with the key would hold it, and so be this very request.
    by_contra hne
    have htrue : e.2 = true := by
      cases heq : e.2 with
      | false => exact absurd heq hne
      | true => rfl
    obtain ⟨c, ω, hc, hsucceeded⟩ := hinv.ran e he
    obtain ⟨rfl, rfl⟩ := hb.unique hc
    have hsucc := hsucceeded htrue (hkeyb ▸ Option.some_ne_none key)
    have hsame := hinv.alone key i e.1 post b φ χ h.before hb hkeya hkeyb hholds hsucc.holding
    rw [← hsame] at hb
    obtain ⟨-, rfl⟩ := h.before.unique hb
    exact hunsucceeded hsucc
  · intro hholding' key j b ψ hkey hj hb hkey' hholds
    rcases hholding hholding' with hφ | hnone
    · exact hj (hinv.alone key j i b post ψ φ hb h.before hkey' hkey hholds hφ)
    · rw [hnone] at hkey
      cases hkey

theorem Inv.execute (hinv : Inv config w) (result : Except RestError Json) :
    Inv config (w.execute config i result) := by
  unfold World.execute
  split
  · next post mutation vars status hpost =>
      have hat : w.At i post (.admitted mutation vars status) := hpost
      have hopen : ∀ key, post.idempotencyKey = some key →
          Holding (.admitted mutation vars status) ∧ ¬Succeeded (.admitted mutation vars status) :=
        fun _ _ => ⟨trivial, id⟩
      cases result with
      | ok value =>
        refine hinv.ran_step ⟨hat, rfl, rfl, nofun⟩ rfl rfl hopen (fun _ => trivial) (fun _ => Or.inl trivial) ?_
        intro key _
        exact statusCode?_getD status 201 (by decide)
      | error e =>
        exact hinv.ran_step ⟨hat, rfl, rfl, nofun⟩ rfl rfl hopen nofun nofun fun _ _ => trivial
  · next post mutation hpost =>
      have hat : w.At i post (.bulk mutation) := hpost
      have hunkeyed : ∀ key, post.idempotencyKey ≠ some key := fun key hkey => hinv.phase key i post _ hat hkey
      have hnone : post.idempotencyKey = none := Option.eq_none_iff_forall_ne_some.mpr hunkeyed
      have hopen : ∀ key, post.idempotencyKey = some key → Holding (.bulk mutation) ∧ ¬Succeeded (.bulk mutation) :=
        fun key hkey => absurd hkey (hunkeyed key)
      cases result with
      | ok value =>
        exact hinv.ran_step ⟨hat, rfl, rfl, nofun⟩ rfl rfl hopen (fun _ => trivial) (fun _ => Or.inr hnone)
          fun key hkey => absurd hkey (hunkeyed key)
      | error e =>
        exact hinv.ran_step ⟨hat, rfl, rfl, nofun⟩ rfl rfl hopen nofun nofun fun _ _ => trivial
  · exact hinv

/-- The response of a request is stored, in whatever way keeps the other responses that still live. -/
theorem Inv.produce {response : RestResponse} (hinv : Inv config w)
    (h : Turns w w' i post (.executed response) (.returned (.produced response w.now)))
    (hexecutions : w'.executions = w.executions) (hentries : ∀ e ∈ w'.entries, EntryOk config w' e.1 e.2)
    (hown : ∀ key, post.idempotencyKey = some key → ∃ entry, w'.entries.lookup key = some entry ∧ entry.origin = i)
    (hkept : ∀ key entry, post.idempotencyKey ≠ some key → w.entries.lookup key = some entry →
      (∀ e ∈ w.entries, e.1 = key → expired config w.now e.2 = false) → w'.entries.lookup key = some entry) :
    Inv config w' := by
  have halone : ∀ key j b ψ, post.idempotencyKey = some key → j ≠ i → w.At j b ψ → b.idempotencyKey = some key →
      ¬Holding ψ := by
    intro key j b ψ hkey hj hb hkey' hholding
    exact hj (hinv.alone key j i b post ψ _ hb h.before hkey' hkey hholding trivial)
  apply h.inv hinv
  · exact fun _ => halone
  · intro key hkey
    exact ⟨hinv.phase key i post _ h.before hkey, fun _ => hown key hkey⟩
  · intro key j b produced storedAt hj hb hkey hlive
    obtain ⟨entry, hlookup, horigin⟩ := (hinv.phase key j b _ hb hkey).2 hlive
    refine ⟨entry, hkept key entry ?_ hlookup ?_, horigin⟩
    · intro hsame
      exact halone key j b _ hsame hj hb hkey trivial
    · intro e he hekey
      -- Whoever wrote this entry holds the key, so it is the same request.
      obtain ⟨producer, other, hproduced, hkey', -⟩ := hinv.entry e he
      rw [hekey] at hkey'
      have hsame := hinv.alone key e.2.origin j producer b _ _ hproduced hb hkey' hkey trivial trivial
      rw [hsame] at hproduced
      obtain ⟨-, hphase⟩ := hproduced.unique hb
      injection hphase with houtcome
      injection houtcome with _ htime
      apply decide_eq_false
      rw [htime]
      exact Nat.not_lt_of_le hlive
  · exact hentries
  · intro e he
    rw [hexecutions] at he
    obtain ⟨a, ψ, hat, hsucceeded⟩ := hinv.ran e he
    by_cases hi : e.1 = i
    · rw [hi]
      exact ⟨post, _, h.self, fun _ _ => trivial⟩
    · exact ⟨a, ψ, (h.other hi a ψ).mpr hat, hsucceeded⟩
  · rw [hexecutions]
    exact hinv.order

theorem Inv.storeResponse (hinv : Inv config w) (hscope : InScope config w (.store i)) :
    Inv config (w.storeResponse config i) := by
  unfold World.storeResponse
  split
  · next post response hpost =>
      have hat : w.At i post (.executed response) := hpost
      have hturns : ∀ entries, Turns w ({ w with entries := entries }.setPhase i post
          (.returned (.produced response w.now))) i post (.executed response) (.returned (.produced response w.now)) :=
        fun entries => ⟨hat, rfl, rfl, nofun⟩
      cases hkey : post.idempotencyKey with
      | none =>
        refine hinv.produce (hturns w.entries) rfl (fun e he => (hturns _).entryOk (hinv.entry e he)) ?_ ?_
        · intro key h
          rw [hkey] at h
          cases h
        · intro key entry _ hlookup _
          exact hlookup
      | some key =>
        dsimp only
        rw [store_eq hscope]
        refine hinv.produce (hturns _) rfl ?_ ?_ ?_
        · intro e he
          rcases mem_append.mp he with he | he
          · exact (hturns _).entryOk (hinv.entry e (mem_evictExpired (mem_filter.mp he).1))
          · rw [mem_singleton.mp he]
            exact ⟨post, response, (hturns _).self, hkey, rfl, rfl⟩
        · intro key' h
          rw [hkey] at h
          obtain rfl := Option.some.inj h
          apply Exists.intro
            ⟨⟨response.status, response.headers, response.body⟩, config.hashBody post.body, w.now, i⟩
          refine ⟨?_, rfl⟩
          have hnone : ((evictExpired config w.now w.entries).filter fun e => e.1 ≠ key).lookup key = none := by
            apply lookup_eq_none_iff.mpr
            intro e he
            exact bne_iff_ne.mpr (Ne.symm (of_decide_eq_true (mem_filter.mp he).2))
          dsimp only [setPhase]
          rw [lookup_append, hnone, lookup_cons_self]
          rfl
        · intro key' entry hne hlookup hlive
          have hkept : ((evictExpired config w.now w.entries).filter fun e => e.1 ≠ key).lookup key' = some entry := by
            apply lookup_filter (lookup_evictExpired hlookup hlive)
            intro e _ hekey
            apply decide_eq_true
            intro heq
            exact hne (hkey.trans (congrArg some (heq.symm.trans hekey)))
          dsimp only [setPhase]
          rw [lookup_append, hkept]
          rfl
  · exact hinv

theorem Inv.step {event : Event} (hinv : Inv config w) (hscope : InScope config w event)
    (horderly : Orderly config w event) : Inv config (w.step config event) := by
  cases event with
  | arrive post => exact hinv.arrive post
  | check i => exact hinv.check hscope horderly
  | execute i result => exact hinv.execute result
  | store i => exact hinv.storeResponse hscope
  | elapse time => exact hinv.elapse time

/-! ### The contract -/

/-- A success with a key goes back to the one request that holds the key. -/
theorem Inv.answer_origin (hinv : Inv config w) {key : String} {response : RestResponse}
    (hcarries : w.Carries i key post) (hanswers : w.Answers i post response) : ∃ j producer produced storedAt,
      w.At j producer (.returned (.produced produced storedAt)) ∧ producer.idempotencyKey = some key ∧
      response.status = produced.status ∧ response.body = produced.body := by
  obtain ⟨-, hkey⟩ := hcarries
  rcases hanswers with ⟨storedAt, hat⟩ | ⟨origin, hat⟩
  · exact ⟨i, post, response, storedAt, hat, hkey, rfl, rfl⟩
  · obtain ⟨producer, produced, storedAt, hproduced, hkey', -, hsame⟩ := hinv.phase key i post _ hat hkey
    exact ⟨origin, producer, produced, storedAt, hproduced, hkey', hsame⟩

theorem Inv.contract (hinv : Inv config w) : Contract config w := by
  refine ⟨?_, ?_, ?_, ?_⟩
  · apply hinv.order.imp
    intro later earlier hpair key a b ha hb _ _ htrue
    rw [hpair key a b ha hb] at htrue
    cases htrue
  · intro i j key a b r r' ha hb _ _ hr hr'
    obtain ⟨l, p, produced, storedAt, hp, hkey, hstatus, hbody⟩ := hinv.answer_origin ha hr
    obtain ⟨l', p', produced', storedAt', hp', hkey', hstatus', hbody'⟩ := hinv.answer_origin hb hr'
    obtain rfl := hinv.alone key l l' p p' _ _ hp hp' hkey hkey' trivial trivial
    obtain ⟨-, hphase⟩ := hp.unique hp'
    injection hphase with houtcome
    injection houtcome with hsame
    rw [hstatus, hbody, hstatus', hbody', hsame]
    exact ⟨rfl, rfl⟩
  · apply hinv.order.imp
    intro later earlier hpair key a b ha hb htrue
    rw [hpair key a b ha hb] at htrue
    cases htrue
  · intro i key post origin response hcarries hat
    obtain ⟨producer, produced, storedAt, hproduced, -, hcaller, -⟩ := hinv.phase key i post _ hat hcarries.2
    exact ⟨producer, _, hproduced, hcaller⟩

end World

/-- In every run within the time to live and the room of the store, in which requests with one key keep apart, the
contract of idempotency keys holds. -/
theorem keys_make_post_once (config : Config) {events : List Event}
    (hscope : EventRun.Along (World.step config) (World.InScope config) World.start events)
    (horderly : EventRun.Along (World.step config) (World.Orderly config) World.start events) :
    World.Contract config (EventRun.run (World.step config) World.start events) := by
  exact ((hscope.and horderly).invariant (fun _ _ hinv h => hinv.step h.1 h.2) inv_start).contract

/-- One route, and a store with a time to live of five minutes. -/
def usersConfig : Config where
  table := [⟨"users", "User", some "id", [⟨.post, "/users", .mutation "createUser", 201⟩]⟩]
  upsertFunction := fun _ => none
  hashBody := fun body => UInt64.ofNat body.text.length
  bulkResponse := fun _ value => ⟨201, [], some value⟩
  ttl := 300
  maxEntries := 10000
  walk := id
  walk_perm := id_perm

def createAda : Post := ⟨"/users", .obj [("name", .str "Ada")], some "k1", none, "r1", none⟩

/-- A request, and its repetition after the first has returned. -/
def retried : List Event :=
  [.arrive createAda, .check 0, .execute 0 (.ok (.str "created")), .store 0, .arrive createAda, .check 1]

theorem keys_make_post_once_retried :
    World.Contract usersConfig (EventRun.run (World.step usersConfig) World.start retried) := by
  apply keys_make_post_once
  · refine ⟨trivial, ?_, trivial, ?_, trivial, ?_, trivial⟩
    · intro post _ key _ j producer response storedAt _ _
      exact Nat.le_trans (Nat.sub_le _ _) (by decide)
    · exact Nat.zero_lt_succ _
    · intro post _ key _ j producer response storedAt _ _
      exact Nat.le_trans (Nat.sub_le _ _) (by decide)
  · refine ⟨trivial, ?_, trivial, trivial, trivial, ?_, trivial⟩
    · intro post hpost key _
      obtain ⟨rfl, -⟩ := Prod.mk.inj (Option.some.inj hpost)
      refine ⟨rfl, ?_⟩
      intro j other phase hother _
      match j, hother with
      | 0, hother =>
        obtain ⟨-, rfl⟩ := Prod.mk.inj (Option.some.inj hother)
        exact ⟨id, fun _ _ h => nomatch h⟩
    · intro post hpost key _
      obtain ⟨rfl, -⟩ := Prod.mk.inj (Option.some.inj hpost)
      refine ⟨rfl, ?_⟩
      intro j other phase hother _
      match j, hother with
      | 0, hother =>
        obtain ⟨rfl, rfl⟩ := Prod.mk.inj (Option.some.inj hother)
        exact ⟨id, fun _ _ _ _ => ⟨⟨rfl, rfl⟩, rfl⟩⟩
      | 1, hother =>
        obtain ⟨-, rfl⟩ := Prod.mk.inj (Option.some.inj hother)
        exact ⟨id, fun _ _ h => nomatch h⟩

/-- A request, and its repetition before the first has returned. -/
def overlapping : List Event :=
  [.arrive createAda, .arrive createAda, .check 0, .check 1, .execute 0 (.ok (.str "created")),
    .execute 1 (.ok (.str "created"))]

/-- Both run the mutation. -/
theorem overlapping_posts_run_twice : ¬∀ config events,
    EventRun.Along (World.step config) (World.InScope config) World.start events →
    World.Contract config (EventRun.run (World.step config) World.start events) := by
  intro h
  have hscope : EventRun.Along (step usersConfig) (World.InScope usersConfig) start overlapping := by
    refine ⟨trivial, trivial, ?_, ?_, trivial, trivial, trivial⟩
    · intro post _ key _ j producer response storedAt _ _
      exact Nat.le_trans (Nat.sub_le _ _) (by decide)
    · intro post _ key _ j producer response storedAt _ _
      exact Nat.le_trans (Nat.sub_le _ _) (by decide)
  have honce := (h usersConfig overlapping hscope).once
  have hexecutions : (EventRun.run (step usersConfig) start overlapping).executions =
      [(1, true), (0, true)] := by
    decide
  rw [hexecutions] at honce
  have hfirst := (pairwise_cons.mp honce).1 (0, true) mem_cons_self "k1" createAda createAda
    ⟨⟨_, rfl⟩, rfl⟩ ⟨⟨_, rfl⟩, rfl⟩ ⟨rfl, rfl⟩ rfl rfl
  cases hfirst

end FraiseQL.Rest.Idempotency
