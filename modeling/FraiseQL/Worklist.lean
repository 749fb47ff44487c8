import Mathlib.Data.List.Perm.Basic
import Mathlib.Logic.Relation
import Mathlib.Tactic.Tauto
import Mathlib.Algebra.BigOperators.Group.List.Basic
import Mathlib.Algebra.GroupWithZero.Nat
import Mathlib.Data.List.Nodup

/-! Breadth-first worklists over a graph given by its successor lists. Three loops are covered: a search
that marks a node when it leaves the queue and compares it there, a search that compares the successors
instead, and a closure that marks a node when it enters the queue. Each is run with fuel; the weight of
the unmarked nodes bounds the fuel a run needs, so a loop given that much always finishes. The order of a
successor list is never observed. -/

namespace Worklist

open Relation List

variable {α : Type}

/-- One edge of the graph. -/
def Edge (succ : α → List α) (a b : α) : Prop := b ∈ succ a

/-- Every successor of a marked node is marked or waits in the queue. -/
def Pending (succ : α → List α) (visited queue : List α) : Prop :=
  ∀ a ∈ visited, ∀ b ∈ succ a, b ∈ visited ∨ b ∈ queue

variable {succ : α → List α} {visited : List α}

theorem reach_mem_of_closed (hclosed : Pending succ visited [])
    {a b : α} (ha : a ∈ visited) (hreach : ReflTransGen (Edge succ) a b) : b ∈ visited := by
  induction hreach with
  | refl => exact ha
  | tail _ hstep ih => simpa using hclosed _ ih _ hstep

variable {queue : List α} {cur : α}

/-- A node joins the marked ones and its successors the queue. -/
theorem Pending.mark {added : List α} (hpending : Pending succ visited (cur :: queue))
    (hadded : ∀ b ∈ succ cur, b ∈ cur :: visited ∨ b ∈ added) :
    Pending succ (cur :: visited) (queue ++ added) := by
  intro a ha b hb
  rcases mem_cons.mp ha with rfl | ha
  · rcases hadded b hb with h | h
    · exact .inl h
    · exact .inr (mem_append_right _ h)
  · rcases hpending a ha b hb with h | h
    · exact .inl (mem_cons_of_mem _ h)
    · rcases mem_cons.mp h with rfl | h
      · exact .inl mem_cons_self
      · exact .inr (mem_append_left _ h)

/-- A node that is already marked leaves the queue. -/
theorem Pending.skip (hpending : Pending succ visited (cur :: queue)) (hcur : cur ∈ visited) :
    Pending succ visited queue := by
  intro a ha b hb
  rcases hpending a ha b hb with h | h
  · exact .inl h
  · rcases mem_cons.mp h with rfl | h
    · exact .inl hcur
    · exact .inr h

/-- An edge added to an acyclic relation closes a cycle exactly when its end already reaches its
start. -/
theorem cycle_of_added_edge_iff {r : α → α → Prop} (hacyclic : ∀ a, ¬TransGen r a a) (a b : α) :
    (∃ c, TransGen (fun x y => r x y ∨ (x = a ∧ y = b)) c c) ↔ ReflTransGen r b a := by
  constructor
  · rintro ⟨c, hcycle⟩
    by_contra hnot
    -- every path of the larger relation either stays in the old one or passes through the new edge
    have hsplit : ∀ x y, TransGen (fun x y => r x y ∨ (x = a ∧ y = b)) x y →
        TransGen r x y ∨ (ReflTransGen r x a ∧ ReflTransGen r b y) := by
      intro x y hpath
      induction hpath with
      | single hstep =>
        rcases hstep with h | ⟨rfl, rfl⟩
        · exact .inl (TransGen.single h)
        · exact .inr ⟨ReflTransGen.refl, ReflTransGen.refl⟩
      | tail _ hstep ih =>
        rcases hstep with h | ⟨rfl, rfl⟩
        · rcases ih with ih | ⟨hxa, hby⟩
          · exact .inl (ih.tail h)
          · exact .inr ⟨hxa, hby.tail h⟩
        · rcases ih with ih | ⟨hxa, _⟩
          · exact .inr ⟨ih.to_reflTransGen, ReflTransGen.refl⟩
          · exact .inr ⟨hxa, ReflTransGen.refl⟩
    rcases hsplit c c hcycle with h | ⟨hca, hbc⟩
    · exact hacyclic c h
    · exact hnot (hbc.trans hca)
  · intro hreach
    refine ⟨a, ?_⟩
    have hback : ReflTransGen (fun x y => r x y ∨ (x = a ∧ y = b)) b a :=
      ReflTransGen.mono (fun _ _ h => .inl h) _ _ hreach
    exact TransGen.head' (.inr ⟨rfl, rfl⟩) hback

/-- The nodes that have left the queue, which the loop itself does not record: together with the queue
they are the result, without repetition. -/
structure Progress (succ : α → List α) (start : α) (done result queue : List α) : Prop where
  perm : result.Perm (done ++ queue)
  nodup : result.Nodup
  expanded : ∀ a ∈ done, ∀ b ∈ succ a, b ∈ result
  reached : ∀ a ∈ result, ReflTransGen (Edge succ) start a
  start_mem : start ∈ result

theorem Progress.init (succ : α → List α) (start : α) : Progress succ start [] [start] [start] where
  perm := List.Perm.refl _
  nodup := nodup_singleton start
  expanded := by simp
  reached := by
    intro a ha
    rw [mem_singleton] at ha
    exact ha ▸ ReflTransGen.refl
  start_mem := mem_singleton_self start

/-- One round of the loop. -/
theorem Progress.step {start : α} {done result fresh : List α}
    (hprogress : Progress succ start done result (cur :: queue)) (hnodup : fresh.Nodup)
    (hnew : ∀ b ∈ fresh, b ∈ succ cur ∧ b ∉ result)
    (hall : ∀ b ∈ succ cur, b ∈ result ∨ b ∈ fresh) :
    Progress succ start (cur :: done) (result ++ fresh) (queue ++ fresh) where
  perm := by
    have hcons : (done ++ cur :: queue).Perm (cur :: done ++ queue) := perm_middle
    have happ := (hprogress.perm.trans hcons).append_right fresh
    rwa [append_assoc (cur :: done)] at happ
  nodup := by
    refine List.Nodup.append hprogress.nodup hnodup ?_
    intro a ha hfresh
    exact (hnew a hfresh).2 ha
  expanded := by
    intro a ha b hb
    rcases mem_cons.mp ha with rfl | ha
    · exact mem_append.mpr (hall b hb)
    · exact mem_append_left _ (hprogress.expanded a ha b hb)
  reached := by
    intro a ha
    rcases mem_append.mp ha with ha | ha
    · exact hprogress.reached a ha
    · have hcur : cur ∈ result := hprogress.perm.mem_iff.mpr (by simp)
      exact (hprogress.reached cur hcur).tail (hnew a ha).1
  start_mem := mem_append_left _ hprogress.start_mem

/-- The rounds of a search that marks a node when it leaves the queue. -/
structure Searches (succ : α → List α) (hit : α → Prop) (f : Nat → List α → List α → Option Bool) : Prop where
  stopped : ∀ visited queue, f 0 visited queue = none
  finished : ∀ fuel visited, f (fuel + 1) visited [] = some false
  round : ∀ fuel visited cur queue, (hit cur ∧ f (fuel + 1) visited (cur :: queue) = some true) ∨
    (cur ∈ visited ∧ f (fuel + 1) visited (cur :: queue) = f fuel visited queue) ∨
    (cur ∉ visited ∧ ¬hit cur ∧ ∃ added, added.Sublist (succ cur) ∧ (∀ b ∈ succ cur, b ∈ cur :: visited ∨ b ∈ added) ∧
      f (fuel + 1) visited (cur :: queue) = f fuel (cur :: visited) (queue ++ added))

variable {hit : α → Prop} {f : Nat → List α → List α → Option Bool}

theorem Searches.sound (hf : Searches succ hit f) : ∀ {fuel : Nat} {visited queue : List α},
    f fuel visited queue = some true → ∃ a ∈ queue, ∃ c, ReflTransGen (Edge succ) a c ∧ hit c := by
  intro fuel
  induction fuel with
  | zero => intro visited queue h; rw [hf.stopped] at h; cases h
  | succ fuel ih =>
    intro visited queue h
    cases queue with
    | nil => rw [hf.finished] at h; cases h
    | cons cur queue =>
      obtain ⟨hcur, -⟩ | ⟨-, heq⟩ | ⟨-, -, added, hadded, -, heq⟩ := hf.round fuel visited cur queue
      · exact ⟨cur, mem_cons_self, cur, .refl, hcur⟩
      · obtain ⟨a, ha, hreach⟩ := ih (heq ▸ h)
        exact ⟨a, mem_cons_of_mem _ ha, hreach⟩
      · obtain ⟨a, ha, c, hreach, hc⟩ := ih (heq ▸ h)
        rcases mem_append.mp ha with hq | hs
        · exact ⟨a, mem_cons_of_mem _ hq, c, hreach, hc⟩
        · have hedge : Edge succ cur a := hadded.subset hs
          exact ⟨cur, mem_cons_self, c, .head hedge hreach, hc⟩

theorem Searches.complete (hf : Searches succ hit f) : ∀ {fuel : Nat} {visited queue : List α},
    f fuel visited queue = some false → Pending succ visited queue → (∀ a ∈ visited, ¬hit a) →
      ∀ a, a ∈ visited ∨ a ∈ queue → ∀ c, ReflTransGen (Edge succ) a c → ¬hit c := by
  intro fuel
  induction fuel with
  | zero => intro visited queue h; rw [hf.stopped] at h; cases h
  | succ fuel ih =>
    intro visited queue h hpending hvisited a ha
    cases queue with
    | nil => exact fun c hreach => hvisited c (reach_mem_of_closed hpending (by simpa using ha) hreach)
    | cons cur queue =>
      obtain ⟨-, heq⟩ | ⟨hcur, heq⟩ | ⟨-, hcur, added, -, hadded, heq⟩ := hf.round fuel visited cur queue
      · rw [heq] at h
        cases h
      · refine ih (heq ▸ h) (hpending.skip hcur) hvisited a ?_
        rcases ha with ha | ha
        · exact .inl ha
        · rcases mem_cons.mp ha with rfl | ha
          · exact .inl hcur
          · exact .inr ha
      · refine ih (heq ▸ h) (hpending.mark hadded) (forall_mem_cons.mpr ⟨hcur, hvisited⟩) a ?_
        rcases ha with ha | ha
        · exact .inl (mem_cons_of_mem _ ha)
        · rcases mem_cons.mp ha with rfl | ha
          · exact .inl mem_cons_self
          · exact .inr (mem_append_left _ ha)

variable [DecidableEq α]

/-- Marks on leaving the queue, compares the node itself. -/
def search (succ : α → List α) (target : α) : Nat → List α → List α → Option Bool
  | 0, _, _ => none
  | _ + 1, _, [] => some false
  | fuel + 1, visited, cur :: queue =>
    if cur = target then some true
    else if cur ∈ visited then search succ target fuel visited queue
    else search succ target fuel (cur :: visited)
      (queue ++ (succ cur).filter fun b => decide (b ∉ cur :: visited))

/-- Marks on leaving the queue, compares the successors of the node. -/
def searchEdge (succ : α → List α) (target : α) : Nat → List α → List α → Option Bool
  | 0, _, _ => none
  | _ + 1, _, [] => some false
  | fuel + 1, visited, cur :: queue =>
    if cur ∈ visited then searchEdge succ target fuel visited queue
    else if target ∈ succ cur then some true
    else searchEdge succ target fuel (cur :: visited) (queue ++ succ cur)

/-- The inner loop of the closure: a successor that is not in the result yet enters it and the queue. -/
def enqueue : List α → List α → List α → List α × List α
  | [], result, queue => (result, queue)
  | b :: bs, result, queue =>
    if b ∈ result then enqueue bs result queue
    else enqueue bs (result ++ [b]) (queue ++ [b])

/-- Marks on entering the queue and collects everything reached. -/
def closure (succ : α → List α) : Nat → List α → List α → Option (List α)
  | 0, _, _ => none
  | _ + 1, result, [] => some result
  | fuel + 1, result, cur :: queue =>
    let (result', queue') := enqueue (succ cur) result queue
    closure succ fuel result' queue'

/-! ### Fuel -/

/-- The number of edges that leave an unmarked node. -/
def weight (succ : α → List α) (nodes visited : List α) : Nat :=
  ((nodes.filter fun a => decide (a ∉ visited)).map fun a => (succ a).length).sum

theorem weight_cons_le (succ : α → List α) (nodes visited : List α) (cur : α) :
    weight succ nodes (cur :: visited) ≤ weight succ nodes visited := by
  induction nodes with
  | nil => simp [weight]
  | cons a nodes ih =>
    simp only [weight, filter_cons] at ih ⊢
    by_cases hv : a ∈ visited
    · simpa [hv] using ih
    · by_cases ha : a = cur
      · subst ha
        simp [hv] at ih ⊢
        omega
      · simp [hv, ha] at ih ⊢
        omega

variable {nodes : List α}

/-- Marking a node pays for its successors. -/
theorem weight_mark (hout : cur ∉ nodes → succ cur = []) (hcur : cur ∉ visited) :
    weight succ nodes (cur :: visited) + (succ cur).length ≤ weight succ nodes visited := by
  induction nodes with
  | nil => simp [weight, hout]
  | cons a nodes ih =>
    by_cases ha : a = cur
    · subst ha
      have hle := weight_cons_le succ nodes visited a
      simp only [weight, filter_cons] at hle ⊢
      simp [hcur] at hle ⊢
      omega
    · have hout' : cur ∉ nodes → succ cur = [] := fun h =>
        hout (by simp [mem_cons, Ne.symm ha, h])
      have hrec := ih hout'
      simp only [weight, filter_cons] at hrec ⊢
      by_cases hv : a ∈ visited
      · simpa [hv] using hrec
      · simp [hv, ha] at hrec ⊢
        omega

theorem Searches.total (hf : Searches succ hit f) (hout : ∀ a, a ∉ nodes → succ a = []) :
    ∀ (fuel : Nat) (visited queue : List α), weight succ nodes visited + queue.length < fuel →
      ∃ b, f fuel visited queue = some b := by
  intro fuel
  induction fuel with
  | zero => intro visited queue h; omega
  | succ fuel ih =>
    intro visited queue h
    cases queue with
    | nil => exact ⟨false, hf.finished fuel visited⟩
    | cons cur queue =>
      rw [length_cons] at h
      obtain ⟨-, heq⟩ | ⟨-, heq⟩ | ⟨hvisited, -, added, hadded, -, heq⟩ := hf.round fuel visited cur queue
      · exact ⟨true, heq⟩
      · rw [heq]
        exact ih visited queue (by omega)
      · rw [heq]
        apply ih
        have hweight := weight_mark (hout cur) hvisited
        have hlength := hadded.length_le
        rw [length_append]
        omega

/-! ### What a search returns -/

/-- A search from one node decides whether it reaches a node that is looked for. -/
theorem Searches.iff (hf : Searches succ hit f) (hout : ∀ a, a ∉ nodes → succ a = []) (fuel : Nat) (start : α)
    (hfuel : weight succ nodes [] + 1 < fuel) :
    f fuel [] [start] = some true ↔ ∃ c, ReflTransGen (Edge succ) start c ∧ hit c := by
  constructor
  · intro h
    obtain ⟨a, ha, hreach⟩ := hf.sound h
    rw [mem_singleton] at ha
    exact ha ▸ hreach
  · rintro ⟨c, hreach, hc⟩
    obtain ⟨b, hb⟩ := hf.total hout fuel [] [start] (by simpa using hfuel)
    cases b with
    | true => exact hb
    | false => exact absurd hc (hf.complete hb nofun nofun start (by simp) c hreach)

theorem search_searches (target : α) : Searches succ (· = target) (search succ target) where
  stopped _ _ := rfl
  finished _ _ := rfl
  round fuel visited cur queue := by
    rw [search]
    split_ifs with htarget hvisited
    · exact .inl ⟨htarget, rfl⟩
    · exact .inr (.inl ⟨hvisited, rfl⟩)
    · refine .inr (.inr ⟨hvisited, htarget, _, filter_sublist, fun b hb => ?_, rfl⟩)
      by_cases hb' : b ∈ cur :: visited
      · exact .inl hb'
      · exact .inr (mem_filter.mpr ⟨hb, by simpa using hb'⟩)

theorem searchEdge_searches (target : α) : Searches succ (target ∈ succ ·) (searchEdge succ target) where
  stopped _ _ := rfl
  finished _ _ := rfl
  round fuel visited cur queue := by
    rw [searchEdge]
    split_ifs with hvisited htarget
    · exact .inr (.inl ⟨hvisited, rfl⟩)
    · exact .inl ⟨htarget, rfl⟩
    · exact .inr (.inr ⟨hvisited, htarget, _, List.Sublist.refl _, fun b hb => .inr hb, rfl⟩)

/-- A search from one node decides reachability. -/
theorem search_iff (hout : ∀ a, a ∉ nodes → succ a = [])
    (fuel : Nat) (start target : α) (hfuel : weight succ nodes [] + 1 < fuel) :
    search succ target fuel [] [start] = some true ↔ ReflTransGen (Edge succ) start target := by
  rw [(search_searches target).iff hout fuel start hfuel]
  simp

/-- A search over the successors decides the existence of a nonempty path. -/
theorem searchEdge_iff (hout : ∀ a, a ∉ nodes → succ a = [])
    (fuel : Nat) (start target : α) (hfuel : weight succ nodes [] + 1 < fuel) :
    searchEdge succ target fuel [] [start] = some true ↔ TransGen (Edge succ) start target := by
  rw [(searchEdge_searches target).iff hout fuel start hfuel]
  exact TransGen.tail'_iff.symm

/-! ### What the closure collects -/

/-- The inner loop appends the same fresh nodes to the result and to the queue. -/
theorem enqueue_spec : ∀ (bs result queue : List α), ∃ fresh : List α,
    enqueue bs result queue = (result ++ fresh, queue ++ fresh) ∧ fresh.Nodup ∧
      fresh.length ≤ bs.length ∧ (∀ b ∈ fresh, b ∈ bs ∧ b ∉ result) ∧
      ∀ b ∈ bs, b ∈ result ∨ b ∈ fresh := by
  intro bs
  induction bs with
  | nil => exact fun result queue => ⟨[], by simp [enqueue]⟩
  | cons b bs ih =>
    intro result queue
    by_cases hb : b ∈ result
    · obtain ⟨fresh, heq, hnodup, hlen, hnew, hall⟩ := ih result queue
      refine ⟨fresh, by rw [enqueue, if_pos hb, heq], hnodup, by simp; omega, ?_, ?_⟩
      · exact fun c hc => ⟨mem_cons_of_mem _ (hnew c hc).1, (hnew c hc).2⟩
      · intro c hc
        rcases mem_cons.mp hc with rfl | hc
        · exact .inl hb
        · exact hall c hc
    · obtain ⟨fresh, heq, hnodup, hlen, hnew, hall⟩ := ih (result ++ [b]) (queue ++ [b])
      have hbfresh : b ∉ fresh := fun h => (hnew b h).2 (by simp)
      refine ⟨b :: fresh, ?_, nodup_cons.mpr ⟨hbfresh, hnodup⟩, by simp; omega, ?_, ?_⟩
      · rw [enqueue, if_neg hb, heq]
        simp
      · intro c hc
        rcases mem_cons.mp hc with rfl | hc
        · exact ⟨mem_cons_self, hb⟩
        · have hc' := hnew c hc
          exact ⟨mem_cons_of_mem _ hc'.1, fun h => hc'.2 (mem_append_left _ h)⟩
      · intro c hc
        rcases mem_cons.mp hc with rfl | hc
        · exact .inr mem_cons_self
        · rcases hall c hc with h | h
          · rcases mem_append.mp h with h | h
            · exact .inl h
            · rw [mem_singleton] at h
              exact .inr (h ▸ mem_cons_self)
          · exact .inr (mem_cons_of_mem _ h)

/-- With enough fuel the closure returns, without repetition, exactly the nodes reachable from the
start. -/
theorem closure_spec (hout : ∀ a, a ∉ nodes → succ a = [])
    (start : α) : ∀ (fuel : Nat) (done result queue : List α), Progress succ start done result queue →
      weight succ nodes done + queue.length < fuel →
      ∃ out, closure succ fuel result queue = some out ∧ out.Nodup ∧
        ∀ a, a ∈ out ↔ ReflTransGen (Edge succ) start a := by
  intro fuel
  induction fuel with
  | zero => intro done result queue _ h; omega
  | succ fuel ih =>
    intro done result queue hprogress h
    cases queue with
    | nil =>
      refine ⟨result, rfl, hprogress.nodup, fun a => ⟨hprogress.reached a, fun hreach => ?_⟩⟩
      have hmem : ∀ b, b ∈ result ↔ b ∈ done := fun b => by
        simpa using hprogress.perm.mem_iff (a := b)
      refine reach_mem_of_closed (fun b hb c hc => .inl ?_) hprogress.start_mem hreach
      exact hprogress.expanded b ((hmem b).mp hb) c hc
    | cons cur queue =>
      obtain ⟨fresh, heq, hnodup, hlen, hnew, hall⟩ := enqueue_spec (succ cur) result queue
      have hdisjoint : (done ++ cur :: queue).Nodup := hprogress.perm.nodup_iff.mp hprogress.nodup
      have hcur : cur ∉ done := fun hdone =>
        (nodup_append.mp hdisjoint).2.2 cur hdone cur mem_cons_self rfl
      have hweight := weight_mark (hout cur) hcur
      simp only [length_cons] at h
      simp only [closure, heq]
      refine ih (cur :: done) _ _ (hprogress.step hnodup hnew hall) ?_
      rw [length_append]
      omega

end Worklist
