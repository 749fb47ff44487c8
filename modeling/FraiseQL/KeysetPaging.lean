import Mathlib.Data.List.Sort
import Mathlib.Order.Basic

/-! Keyset pagination over a list of items with distinct keys: sorting by the key, cutting at a key, taking a
page at either end, and following the last key of a page to the next one. -/

namespace KeysetPaging

open List Option

variable {α κ : Type} [LinearOrder κ] (key : α → κ)

/-! ### Sorting by a key -/

def ascending (items : List α) : List α := items.mergeSort fun a b => decide (key a ≤ key b)

def descending (items : List α) : List α := items.mergeSort fun a b => decide (key b ≤ key a)

/-- Items in strictly ascending order of their keys. -/
def Increasing (items : List α) : Prop := items.Pairwise fun a b => key a < key b

def Distinct (items : List α) : Prop := items.Pairwise fun a b => key a ≠ key b

variable {key}

theorem ascending_perm (items : List α) : (ascending key items).Perm items := mergeSort_perm items _

variable {items : List α}

omit [LinearOrder κ] in
theorem Distinct.perm {other : List α} (h : Distinct key items) (hperm : items.Perm other) : Distinct key other :=
  List.Pairwise.perm h hperm Ne.symm

theorem increasing_ascending (h : Distinct key items) : Increasing key (ascending key items) := by
  have hsorted : (ascending key items).Pairwise fun a b => decide (key a ≤ key b) = true := by
    apply pairwise_mergeSort
    · intro a b c hab hbc
      rw [decide_eq_true_eq] at hab hbc ⊢
      exact hab.trans hbc
    · intro a b
      rw [Bool.or_eq_true, decide_eq_true_eq, decide_eq_true_eq]
      exact le_total (key a) (key b)
  have hdistinct : Distinct key (ascending key items) := h.perm (ascending_perm items).symm
  refine (hsorted.and hdistinct).imp ?_
  rintro a b ⟨hle, hne⟩
  exact lt_of_le_of_ne (of_decide_eq_true hle) hne

theorem Increasing.distinct (h : Increasing key items) : Distinct key items :=
  h.imp fun hlt => ne_of_lt hlt

/-- There is one increasing arrangement. -/
theorem ascending_eq {sorted : List α} (hsorted : Increasing key sorted) (hperm : sorted.Perm items) :
    ascending key items = sorted := by
  have hdistinct := hsorted.distinct.perm hperm
  have hleft := increasing_ascending hdistinct
  refine List.Perm.eq_of_pairwise ?_ hleft hsorted ((ascending_perm items).trans hperm.symm)
  intro a b _ _ hab hba
  exact absurd hba (not_lt_of_gt hab)

theorem ascending_filter (h : Distinct key items) (p : α → Bool) :
    ascending key (items.filter p) = (ascending key items).filter p := by
  apply ascending_eq
  · exact List.Pairwise.filter p (increasing_ascending h)
  · exact (ascending_perm items).filter p

/-- The descending order is the ascending one from the other end. -/
theorem descending_eq_reverse (h : Distinct key items) : descending key items = (ascending key items).reverse := by
  have hdual : descending key items = @ascending α κᵒᵈ _ (fun a => OrderDual.toDual (key a)) items := rfl
  rw [hdual]
  apply ascending_eq
  · exact pairwise_reverse.mpr (increasing_ascending h)
  · exact (reverse_perm _).trans (ascending_perm items)

/-- A page cut from the descending order and sorted again is the end of the ascending one. -/
theorem ascending_take_descending (h : Distinct key items) (n : Nat) : ascending key ((descending key items).take n) =
      (ascending key items).drop ((ascending key items).length - n) := by
  apply ascending_eq
  · exact (increasing_ascending h).sublist (drop_sublist _ _)
  · rw [descending_eq_reverse h, take_reverse]
    exact (reverse_perm _).symm

/-! ### Cutting at a key -/

theorem filter_after {before after : List α} {x : α} (h : Increasing key (before ++ x :: after)) :
    (before ++ x :: after).filter (fun a => decide (key x < key a)) = after := by
  obtain ⟨_, hafter, hcross⟩ := pairwise_append.mp h
  obtain ⟨hx, _⟩ := pairwise_cons.mp hafter
  have hbefore : before.filter (fun a => decide (key x < key a)) = [] := by
    apply filter_eq_nil_iff.mpr
    intro a ha
    rw [decide_eq_true_eq]
    exact not_lt_of_gt (hcross a ha x (mem_cons_self ..))
  have hrest : after.filter (fun a => decide (key x < key a)) = after := by
    apply filter_eq_self.mpr
    intro a ha
    exact decide_eq_true (hx a ha)
  rw [filter_append, hbefore, nil_append, filter_cons_of_neg, hrest]
  rw [decide_eq_true_eq]
  exact lt_irrefl (key x)

/-! ### Following pages -/

/-- One page of a traversal: its items, whether there are more, and the cursor to go on with. -/
structure Page (ι ρ : Type) where
  items : List ι
  more : Bool
  cursor : Option ρ

/-- The pages met by following cursors until a page says there are no more. -/
inductive Follows {ι ρ : Type} (page : Option ρ → Option (Page ι ρ)) : Option ρ → List (List ι) → Prop
  | last {start : Option ρ} {p : Page ι ρ} (hpage : page start = some p) (hmore : p.more = false) :
      Follows page start [p.items]
  | next {start : Option ρ} {cursor : ρ} {p : Page ι ρ} {pages : List (List ι)}
      (hpage : page start = some p) (hmore : p.more = true) (hcursor : p.cursor = some cursor)
      (hrest : Follows page (some cursor) pages) : Follows page start (p.items :: pages)

theorem Follows.unique {ι ρ : Type} {page : Option ρ → Option (Page ι ρ)} {start : Option ρ}
    {pages pages' : List (List ι)} (h : Follows page start pages) (h' : Follows page start pages') :
    pages = pages' := by
  induction h generalizing pages' with
  | last hpage hmore =>
    cases h' with
    | last hpage' _ =>
      rw [hpage] at hpage'
      rw [some.inj hpage']
    | next hpage' hmore' _ _ =>
      rw [hpage] at hpage'
      rw [← some.inj hpage', hmore] at hmore'
      cases hmore'
  | next hpage hmore hcursor _ ih =>
    cases h' with
    | last hpage' hmore' =>
      rw [hpage] at hpage'
      rw [← some.inj hpage', hmore] at hmore'
      cases hmore'
    | next hpage' _ hcursor' hrest' =>
      rw [hpage] at hpage'
      obtain rfl := some.inj hpage'
      rw [hcursor] at hcursor'
      obtain rfl := some.inj hcursor'
      rw [ih hrest']

/-- What a page source has to answer from a cursor at which `rest` is left: the next `n` items, more exactly
when some stay behind, and a cursor at which those are left. -/
def Serves {ι ρ : Type} (page : Option ρ → Option (Page ι ρ)) (n : Nat) (Left : Option ρ → List ι → Prop) :
    Prop :=
  ∀ start rest, Left start rest → ∃ p, page start = some p ∧ p.items = rest.take n ∧
    p.more = decide (n < rest.length) ∧
    (n < rest.length → ∃ cursor, p.cursor = some cursor ∧ Left (some cursor) (rest.drop n))

/-- Such pages are followed to the end and together are everything that was left. -/
theorem Serves.covers {ι ρ : Type} {page : Option ρ → Option (Page ι ρ)} {n : Nat} (hn : 1 ≤ n)
    {Left : Option ρ → List ι → Prop} (h : Serves page n Left) {start : Option ρ} {rest : List ι}
    (hleft : Left start rest) : ∃ pages, Follows page start pages ∧ pages.flatten = rest := by
  -- each page takes at least one item, so what is left gets shorter
  induction hlength : rest.length using Nat.strong_induction_on generalizing start rest with
  | _ length ih =>
    obtain ⟨p, hpage, hitems, hmore, hnext⟩ := h start rest hleft
    by_cases hn' : n < rest.length
    · obtain ⟨cursor, hcursor, hleft'⟩ := hnext hn'
      have hshorter : (rest.drop n).length < length := by
        rw [length_drop]
        omega
      obtain ⟨pages, hfollows, hflatten⟩ := ih _ hshorter hleft' rfl
      refine ⟨p.items :: pages, .next hpage (by rw [hmore, decide_eq_true hn']) hcursor hfollows, ?_⟩
      rw [flatten_cons, hflatten, hitems, take_append_drop]
    · refine ⟨[p.items], .last hpage (by rw [hmore, decide_eq_false hn']), ?_⟩
      rw [flatten_singleton, hitems, take_of_length_le (not_lt.mp hn')]

end KeysetPaging
