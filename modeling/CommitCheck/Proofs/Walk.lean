import CommitCheck.History.Walk
import Mathlib.Data.List.Nodup
import Mathlib.Order.Basic
import Mathlib.Tactic.Push

set_option autoImplicit false

/-! What walks and merge bases are in terms of ancestors. A walk lists every commit that is wanted
and not hidden once, and newest first as far as times tell. A merge base is a common ancestor that
is no other one's ancestor. Every common ancestor is an ancestor of a merge base, so hiding one
merge base leaves the commits that only one of the two has exactly if there is no other. -/

namespace CommitCheck.History

variable {history : History}

namespace Reaches

variable {a b c : Nat}

theorem trans (first : Reaches history a b) (second : Reaches history b c) :
    Reaches history a c := by
  induction second with
  | refl => exact first
  | step member _ ih => exact .step member ih

end Reaches

/-- No commit is older than one of its parents. -/
def Orderly (history : History) : Prop :=
  ∀ commit, ∀ parent ∈ history.parents commit, history.time parent ≤ history.time commit

/-- Every commit has a time of its own, and it is later than those of the parents. -/
structure Chronological (history : History) : Prop where
  distinct : ∀ a b, a < history.commits.length → b < history.commits.length →
    history.time a = history.time b → a = b
  increasing : ∀ commit, ∀ parent ∈ history.parents commit,
    history.time parent < history.time commit

theorem chronological_iff :
    Chronological history ↔
      (∀ a < history.commits.length, ∀ b < history.commits.length,
        history.time a = history.time b → a = b) ∧
      ∀ commit < history.commits.length, ∀ parent ∈ history.parents commit,
        history.time parent < history.time commit := by
  constructor
  · rintro ⟨distinct, increasing⟩
    exact ⟨fun a left b right => distinct a b left right, fun commit _ => increasing commit⟩
  · rintro ⟨distinct, increasing⟩
    refine ⟨fun a b left right => distinct a left b right, ?_⟩
    intro commit parent member
    apply increasing commit _ parent member
    by_contra missing
    unfold parents at member
    rw [List.getElem?_eq_none (Nat.le_of_not_lt missing)] at member
    cases member

instance : Decidable (Chronological history) :=
  decidable_of_iff _ chronological_iff.symm

/-- Every commit in a list is later than all that follow it. -/
def NewestFirst (history : History) (commits : List Nat) : Prop :=
  commits.Pairwise fun earlier later => history.time later < history.time earlier

theorem Chronological.orderly (chronological : Chronological history) : Orderly history :=
  fun commit parent member => Int.le_of_lt (chronological.increasing commit parent member)

theorem Orderly.time_le (orderly : Orderly history) {ancestor commit : Nat}
    (reaches : Reaches history ancestor commit) :
    history.time ancestor ≤ history.time commit := by
  induction reaches with
  | refl => exact Int.le_refl _
  | step member _ ih => exact Int.le_trans ih (orderly _ _ member)

theorem NewestFirst.not_reaches (orderly : Orderly history) {commits : List Nat}
    (newest : NewestFirst history commits) :
    commits.Pairwise fun earlier later => ¬Reaches history earlier later := by
  apply List.Pairwise.imp _ newest
  intro earlier later before reaches
  have notLater := orderly.time_le reaches
  omega

private theorem lt_of_mem_ancestorsBelow {bound ancestor : Nat} {wanted : List Nat}
    (member : ancestor ∈ history.ancestorsBelow bound wanted) : ancestor < bound := by
  obtain ⟨commit, -, below, reaches⟩ := (history.mem_ancestorsBelow bound wanted ancestor).mp member
  exact Nat.lt_of_le_of_lt reaches.le below

private theorem pairwise_ancestorsBelow (bound : Nat) (wanted : List Nat) :
    (history.ancestorsBelow bound wanted).Pairwise fun earlier later => later < earlier := by
  induction bound generalizing wanted with
  | zero => exact List.Pairwise.nil
  | succ bound ih =>
      unfold ancestorsBelow
      split
      · apply List.Pairwise.cons _ (ih _)
        intro ancestor member
        exact lt_of_mem_ancestorsBelow member
      · exact ih wanted

theorem pairwise_ancestors (history : History) (starts : List Nat) :
    (history.ancestors starts).Pairwise fun earlier later => later < earlier :=
  pairwise_ancestorsBelow _ starts

theorem nodup_ancestors (history : History) (starts : List Nat) :
    (history.ancestors starts).Nodup := by
  apply List.Pairwise.imp _ (history.pairwise_ancestors starts)
  intro earlier later below same
  omega

section Single

variable {commit : Nat} (bound : commit < history.commits.length)

include bound

theorem mem_ancestors_single (ancestor : Nat) :
    ancestor ∈ history.ancestors [commit] ↔ Reaches history ancestor commit := by
  rw [mem_ancestors]
  constructor
  · rintro ⟨start, member, -, reaches⟩
    rw [List.mem_singleton.mp member] at reaches
    exact reaches
  · intro reaches
    exact ⟨commit, List.mem_singleton_self commit, bound, reaches⟩

theorem ancestors_single : ∃ others, history.ancestors [commit] = commit :: others := by
  have member := (mem_ancestors_single bound commit).mpr (.refl commit)
  have pairwise := history.pairwise_ancestors [commit]
  have above (ancestor : Nat) (found : ancestor ∈ history.ancestors [commit]) :
      ancestor ≤ commit :=
    ((mem_ancestors_single bound ancestor).mp found).le
  cases whole : history.ancestors [commit] with
  | nil =>
      rw [whole] at member
      exact absurd member List.not_mem_nil
  | cons first others =>
      rw [whole] at member pairwise above
      rcases List.mem_cons.mp member with same | later
      · exact ⟨others, by rw [same]⟩
      · have below := (List.pairwise_cons.mp pairwise).1 commit later
        have notBelow := above first List.mem_cons_self
        omega

end Single

section Sorting

private theorem notOlder_trans (history : History) (a b c : Nat)
    (first : decide (history.time b ≤ history.time a) = true)
    (second : decide (history.time c ≤ history.time b) = true) :
    decide (history.time c ≤ history.time a) = true := by
  simp only [decide_eq_true_eq] at *
  omega

private theorem notOlder_total (history : History) (a b : Nat) :
    (decide (history.time b ≤ history.time a) || decide (history.time a ≤ history.time b)) =
      true := by
  simp only [Bool.or_eq_true, decide_eq_true_eq]
  omega

theorem newestFirst_perm (history : History) (commits : List Nat) :
    (history.newestFirst commits).Perm commits :=
  List.mergeSort_perm commits _

theorem mem_newestFirst {commits : List Nat} {commit : Nat} :
    commit ∈ history.newestFirst commits ↔ commit ∈ commits :=
  (history.newestFirst_perm commits).mem_iff

theorem newestFirst_newestFirst (chronological : Chronological history) {commits : List Nat}
    (stored : ∀ commit ∈ commits, commit < history.commits.length) (distinct : commits.Nodup) :
    NewestFirst history (history.newestFirst commits) := by
  have sorted := List.pairwise_mergeSort (notOlder_trans history) (notOlder_total history) commits
  have apart := (history.newestFirst_perm commits).nodup_iff.mpr distinct
  apply List.Pairwise.imp_of_mem _ (sorted.and apart)
  rintro earlier later memberEarlier memberLater ⟨ordered, different⟩
  have notNewer := of_decide_eq_true ordered
  have unequal : history.time later ≠ history.time earlier := by
    intro same
    exact different (chronological.distinct later earlier
      (stored later (mem_newestFirst.mp memberLater))
      (stored earlier (mem_newestFirst.mp memberEarlier)) same).symm
  omega

theorem newestFirst_cons {commit : Nat} {others : List Nat}
    (notNewer : ∀ other ∈ others, history.time other ≤ history.time commit) :
    history.newestFirst (commit :: others) = commit :: history.newestFirst others := by
  obtain ⟨before, after, whole, rest, newer⟩ :=
    List.mergeSort_cons (notOlder_trans history) (notOlder_total history) commit others
  have nothing : before = [] := by
    rw [List.eq_nil_iff_forall_not_mem]
    intro other member
    have found : other ∈ history.newestFirst others := by
      unfold newestFirst
      rw [rest]
      exact List.mem_append_left after member
    have older := notNewer other (mem_newestFirst.mp found)
    have newer := newer other member
    rw [Bool.not_eq_true', decide_eq_false_iff_not] at newer
    exact newer older
  subst nothing
  unfold newestFirst
  rw [whole, rest]
  rfl

end Sorting

/-! ### Walks -/

theorem mem_walk {starts hidden : List Nat} {commit : Nat} :
    commit ∈ history.walk starts hidden ↔
      (∃ start ∈ starts, start < history.commits.length ∧ Reaches history commit start) ∧
        ¬∃ other ∈ hidden, other < history.commits.length ∧ Reaches history commit other := by
  unfold walk
  rw [mem_newestFirst, List.mem_filter, mem_ancestors, Bool.not_eq_true', ← Bool.not_eq_true,
    List.contains_iff_mem, mem_ancestors]

theorem lt_of_mem_walk {starts hidden : List Nat} {commit : Nat}
    (member : commit ∈ history.walk starts hidden) : commit < history.commits.length := by
  obtain ⟨⟨start, -, bound, reaches⟩, -⟩ := mem_walk.mp member
  exact Nat.lt_of_le_of_lt reaches.le bound

theorem nodup_walk (history : History) (starts hidden : List Nat) :
    (history.walk starts hidden).Nodup :=
  (history.newestFirst_perm _).nodup_iff.mpr ((history.nodup_ancestors starts).filter _)

theorem newestFirst_walk (chronological : Chronological history) (starts hidden : List Nat) :
    NewestFirst history (history.walk starts hidden) := by
  apply newestFirst_newestFirst chronological
  · intro commit member
    exact lt_of_mem_walk (mem_newestFirst.mpr member)
  · exact (history.nodup_ancestors starts).filter _

section Single

variable {commit : Nat} (bound : commit < history.commits.length)

include bound

theorem mem_walk_single {ancestor : Nat} :
    ancestor ∈ history.walk [commit] [] ↔ Reaches history ancestor commit := by
  rw [mem_walk, ← mem_ancestors, mem_ancestors_single bound]
  apply and_iff_left
  rintro ⟨other, member, -⟩
  exact absurd member List.not_mem_nil

theorem head?_walk_single (orderly : Orderly history) :
    (history.walk [commit] []).head? = some commit := by
  obtain ⟨older, whole⟩ := ancestors_single bound
  have unhidden : (history.ancestors [commit]).filter
      (fun ancestor => !(history.ancestors []).contains ancestor) = commit :: older := by
    rw [← whole, List.filter_eq_self]
    intro ancestor _
    rw [Bool.not_eq_true', ← Bool.not_eq_true, List.contains_iff_mem, mem_ancestors]
    rintro ⟨start, member, -⟩
    exact absurd member List.not_mem_nil
  change (history.newestFirst ((history.ancestors [commit]).filter
    fun ancestor => !(history.ancestors []).contains ancestor)).head? = some commit
  rw [unhidden, newestFirst_cons]
  · rfl
  · intro ancestor member
    apply orderly.time_le
    apply (mem_ancestors_single bound ancestor).mp
    rw [whole]
    exact List.mem_cons_of_mem commit member

theorem walk_single_eq_iff :
    history.walk [commit] [] = [commit] ↔ history.parents commit = [] := by
  constructor
  · intro alone
    rw [List.eq_nil_iff_forall_not_mem]
    intro parent member
    have listed := (mem_walk_single bound).mpr (.step member (.refl parent))
    rw [alone, List.mem_singleton] at listed
    subst listed
    exact Nat.lt_irrefl parent (history.lt_of_mem_parents member)
  · intro root
    apply List.perm_singleton.mp
    apply (List.perm_ext_iff_of_nodup (history.nodup_walk _ _) (List.nodup_singleton _)).mpr
    intro ancestor
    rw [mem_walk_single bound, List.mem_singleton]
    constructor
    · intro reaches
      cases reaches with
      | refl => rfl
      | step member _ =>
          rw [root] at member
          exact absurd member List.not_mem_nil
    · rintro rfl
      exact .refl ancestor

end Single

section Between

variable {a b : Nat} (left : a < history.commits.length) (right : b < history.commits.length)

include left right

theorem mem_walk_between {commit : Nat} :
    commit ∈ history.walk [b] [a] ↔ Reaches history commit b ∧ ¬Reaches history commit a := by
  rw [mem_walk]
  simp only [List.mem_singleton, exists_eq_left, left, right, true_and]

theorem walk_between_eq_nil_iff : history.walk [b] [a] = [] ↔ Reaches history b a := by
  rw [List.eq_nil_iff_forall_not_mem]
  constructor
  · intro nothing
    by_contra apart
    exact nothing b ((mem_walk_between left right).mpr ⟨.refl b, apart⟩)
  · intro reaches commit member
    obtain ⟨toRight, notLeft⟩ := (mem_walk_between left right).mp member
    exact notLeft (toRight.trans reaches)

end Between

/-! ### Merge bases -/

/-- An ancestor of both commits that is an ancestor of no other such commit. -/
structure IsMergeBase (history : History) (a b base : Nat) : Prop where
  left : Reaches history base a
  right : Reaches history base b
  best : ∀ other, Reaches history other a → Reaches history other b →
    Reaches history base other → other = base

/-- Every common ancestor is an ancestor of a merge base. -/
theorem exists_mergeBase {a b common : Nat} (toLeft : Reaches history common a)
    (toRight : Reaches history common b) :
    ∃ base, IsMergeBase history a b base ∧ Reaches history common base := by
  -- The induction is on the room between the common ancestor and the commit on the left.
  induction room : a - common using Nat.strongRecOn generalizing common with
  | _ size ih =>
      by_cases best : ∀ other, Reaches history other a → Reaches history other b →
          Reaches history common other → other = common
      · exact ⟨common, ⟨toLeft, toRight, best⟩, .refl common⟩
      · push Not at best
        obtain ⟨other, otherLeft, otherRight, reaches, different⟩ := best
        have above := reaches.le
        have below := otherLeft.le
        obtain ⟨base, isBase, toBase⟩ := ih (a - other) (by omega) otherLeft otherRight rfl
        exact ⟨base, isBase, reaches.trans toBase⟩

section Pair

variable {a b : Nat} (left : a < history.commits.length) (right : b < history.commits.length)

include left right

theorem mem_commonAncestors {commit : Nat} :
    commit ∈ history.commonAncestors a b ↔
      Reaches history commit a ∧ Reaches history commit b := by
  unfold commonAncestors
  rw [List.mem_filter, List.contains_iff_mem, mem_ancestors_single left,
    mem_ancestors_single right]

theorem mem_mergeBases {base : Nat} :
    base ∈ history.mergeBases a b ↔ IsMergeBase history a b base := by
  have below (other : Nat) (member : other ∈ history.commonAncestors a b) :
      base ∈ history.ancestors [other] ↔ Reaches history base other :=
    mem_ancestors_single
      (Nat.lt_of_le_of_lt ((mem_commonAncestors left right).mp member).1.le left) base
  unfold mergeBases
  rw [mem_newestFirst, List.mem_filter, mem_commonAncestors left right, Bool.not_eq_true',
    List.any_eq_false]
  constructor
  · rintro ⟨⟨toLeft, toRight⟩, alone⟩
    refine ⟨toLeft, toRight, ?_⟩
    intro other otherLeft otherRight reaches
    have member := (mem_commonAncestors left right).mpr ⟨otherLeft, otherRight⟩
    have apart := alone other member
    rw [Bool.and_eq_true, List.contains_iff_mem, below other member] at apart
    by_contra different
    exact apart ⟨bne_iff_ne.mpr different, reaches⟩
  · intro isBase
    refine ⟨⟨isBase.left, isBase.right⟩, ?_⟩
    intro other member apart
    rw [Bool.and_eq_true, List.contains_iff_mem, below other member] at apart
    obtain ⟨otherLeft, otherRight⟩ := (mem_commonAncestors left right).mp member
    exact bne_iff_ne.mp apart.1 (isBase.best other otherLeft otherRight apart.2)

end Pair

theorem newestFirst_mergeBases (chronological : Chronological history) (a b : Nat) :
    NewestFirst history (history.mergeBases a b) := by
  apply newestFirst_newestFirst chronological
  · intro commit member
    have ancestor := List.mem_of_mem_filter (List.mem_of_mem_filter member)
    obtain ⟨start, -, bound, reaches⟩ := (history.mem_ancestors [a] commit).mp ancestor
    exact Nat.lt_of_le_of_lt reaches.le bound
  · exact ((history.nodup_ancestors [a]).filter _).filter _

/-- Hiding a merge base leaves the commits that one side alone has exactly if there is no other
merge base. -/
theorem IsMergeBase.hides_iff {a b base : Nat} (isBase : IsMergeBase history a b base) :
    (∀ commit, ((Reaches history commit a ∨ Reaches history commit b) ∧
        ¬Reaches history commit base) ↔
      Xor (Reaches history commit a) (Reaches history commit b)) ↔
      ∀ other, IsMergeBase history a b other → other = base := by
  constructor
  · intro same other otherBase
    by_contra different
    have unhidden : ¬Reaches history other base := by
      intro reaches
      exact different (otherBase.best base isBase.left isBase.right reaches).symm
    rcases (same other).mp ⟨Or.inl otherBase.left, unhidden⟩ with ⟨-, notRight⟩ | ⟨-, notLeft⟩
    · exact notRight otherBase.right
    · exact notLeft otherBase.left
  · intro only commit
    have hides (toLeft : Reaches history commit a) (toRight : Reaches history commit b) :
        Reaches history commit base := by
      obtain ⟨other, otherBase, reaches⟩ := exists_mergeBase toLeft toRight
      rw [only other otherBase] at reaches
      exact reaches
    constructor
    · rintro ⟨toLeft | toRight, unhidden⟩
      · exact Or.inl ⟨toLeft, fun toRight => unhidden (hides toLeft toRight)⟩
      · exact Or.inr ⟨toRight, fun toLeft => unhidden (hides toLeft toRight)⟩
    · rintro (⟨toLeft, notRight⟩ | ⟨toRight, notLeft⟩)
      · exact ⟨Or.inl toLeft, fun hidden => notRight (hidden.trans isBase.right)⟩
      · exact ⟨Or.inr toRight, fun hidden => notLeft (hidden.trans isBase.left)⟩

end CommitCheck.History
