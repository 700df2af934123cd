import TieredCache.Proofs.Contents
import TieredCache.Proofs.TierOrder

/-!
# Displacements in the list of all entries

Hottest tier first, the lists of the tiers make up one list of all entries. As long as no entry is
too old for any tier, and each key is stored once, a write to the hottest tier acts on this list as
on a single tier, however far what it displaces is carried down.
-/

namespace TieredCache.Hierarchy

/-- A part that overflows its room pushes its excess in front of the next part. -/
theorem take_append_of_fits {α : Type} (front back : List α) {a b : Nat} (hback : back.length ≤ b) :
    (front ++ back).take (a + b) = front.take a ++ (front.drop a ++ back).take b := by
  rcases Nat.le_total front.length a with hfront | hfront
  · have hall : (front ++ back).length ≤ a + b := by
      rw [List.length_append]
      omega
    rw [List.take_of_length_le hfront, List.drop_eq_nil_of_le hfront, List.nil_append,
      List.take_of_length_le hback, List.take_of_length_le hall]
  · rw [List.take_add, List.take_append_of_le_length hfront, List.drop_append_of_le_length hfront]

variable {K V : Type}

/-- The number of entries that some tiers have room for. -/
def room (h : Hierarchy K V) (levels : List Level) : Nat :=
  (levels.map fun l => (h.tier l).capacity.value).sum

/-- No two entries, stored or in flight, have the same key, and none is too old for any tier. -/
structure Tidy (h : Hierarchy K V) (flight : List (K × Entry V)) (now : Int) : Prop where
  consistent : ∀ l, (h.tier l).Consistent
  distinct : (((flight : Multiset (K × Entry V)) + h.contents).map Prod.fst).Nodup
  young : ∀ p ∈ (flight : Multiset (K × Entry V)) + h.contents, ∀ l,
    p.2.expired (h.tier l).ttl now = false

variable {h h' : Hierarchy K V} {flight : List (K × Entry V)} {now : Int}

theorem room_cons (h : Hierarchy K V) (l : Level) (colder : List Level) :
    h.room (l :: colder) = (h.tier l).capacity.value + h.room colder := by
  rw [room, List.map_cons, List.sum_cons, room]

theorem room_congr {levels : List Level}
    (hsame : ∀ l ∈ levels, (h'.tier l).capacity = (h.tier l).capacity) :
    h'.room levels = h.room levels := by
  rw [room, room]
  congr 1
  apply List.map_congr_left
  intro l hl
  rw [hsame l hl]

theorem Tidy.of_le {flight' : List (K × Entry V)} (hh : h.Tidy flight now)
    (hconsistent : ∀ l, (h'.tier l).Consistent) (httl : ∀ l, (h'.tier l).ttl = (h.tier l).ttl)
    (hle : (flight' : Multiset (K × Entry V)) + h'.contents ≤ flight + h.contents) :
    h'.Tidy flight' now where
  consistent := hconsistent
  distinct := Distinct.of_le hh.distinct hle
  young p hp l := by
    rw [httl]
    exact hh.young p (Multiset.mem_of_le hle hp) l

theorem Tidy.not_expired {k : K} {e : Entry V} (hh : h.Tidy ((k, e) :: flight) now) (l : Level) :
    e.expired (h.tier l).ttl now = false :=
  hh.young (k, e) (Multiset.mem_add.2 (.inl List.mem_cons_self)) l

variable [DecidableEq K]

/-- The entries of some tiers, most recently touched first within each tier. -/
def ordered (h : Hierarchy K V) (levels : List Level) : List (K × Entry V) :=
  levels.flatMap fun l => (h.tier l).ordered

theorem ordered_cons (h : Hierarchy K V) (l : Level) (colder : List Level) :
    h.ordered (l :: colder) = (h.tier l).ordered ++ h.ordered colder :=
  List.flatMap_cons

theorem ordered_congr {levels : List Level} (hsame : ∀ l ∈ levels, h'.tier l = h.tier l) :
    h'.ordered levels = h.ordered levels := by
  apply List.flatMap_congr
  intro l hl
  rw [hsame l hl]

theorem length_ordered_le (hconsistent : ∀ l, (h.tier l).Consistent) (levels : List Level) :
    (h.ordered levels).length ≤ h.room levels := by
  induction levels with
  | nil => exact Nat.le_refl _
  | cons l colder ih =>
    have hl := (hconsistent l).length_ordered_le
    rw [ordered_cons, room_cons, List.length_append]
    omega

namespace Tidy

theorem not_stored {k : K} {e : Entry V} (hh : h.Tidy ((k, e) :: flight) now) (l : Level) :
    (h.tier l).store.get? k = none :=
  Distinct.not_stored hh.distinct l

theorem not_contains {k : K} {e : Entry V} (hh : h.Tidy ((k, e) :: flight) now) :
    h.contains k now = false :=
  Distinct.not_contains hh.distinct now

theorem landed {k : K} {e : Entry V} (hh : h.Tidy ((k, e) :: flight) now) (l : Level) :
    (h.landed l k e).Tidy (((h.tier l).put k e).evicted ++ flight) now := by
  refine hh.of_le ?_ ?_ ?_
  · intro m
    rw [tier_landed]
    split
    · exact (hh.consistent l).put k e
    · exact hh.consistent m
  · intro m
    rw [tier_landed]
    split
    · rename_i hm
      rw [(Tier.put_alike _ _ _).ttl, hm]
    · rfl
  · exact (contents_kept now _).lands h k e flight l (hh.not_expired l) hh.not_contains le_rfl

/-- A placed entry replaces the one of its key. -/
theorem placed (hh : h.Tidy [] now) (l : Level) (k : K) {e : Entry V}
    (hage : ∀ m, e.expired (h.tier m).ttl now = false) :
    (h.placed l k e).Tidy ((h.tier l).put k e).evicted now := by
  have hyoung := hh.young
  rw [Multiset.coe_nil, zero_add] at hyoung
  constructor
  · intro m
    rw [tier_placed]
    split
    · exact (hh.consistent l).put k e
    · exact (hh.consistent m).remove k
  · exact Distinct.placed hh.distinct l k e
  · intro p hp m
    have httl : ((h.placed l k e).tier m).ttl = (h.tier m).ttl := by
      rw [tier_placed]
      split
      · rename_i hm
        rw [(Tier.put_alike _ _ _).ttl, hm]
      · exact (Tier.remove_within _ k).ttl
    rw [contents_placed] at hp
    rw [httl]
    rcases Multiset.mem_cons.1 hp with rfl | hp
    · exact hage m
    · exact hyoung p (Multiset.mem_filter.1 hp).1 m

/-- A victim that is carried down some levels goes to the front of their entries, and the last of
these is given up if it no longer fits. -/
theorem foldl_settle (levels : List Level) (hnodup : levels.Nodup)
    (hsingle : flight.length ≤ 1) (hh : h.Tidy flight now) :
    (flight.foldl (settle now levels) h).ordered levels =
        (flight ++ h.ordered levels).take (h.room levels) ∧
      (flight.foldl (settle now levels) h).counters.evictions =
        h.counters.evictions + ((flight ++ h.ordered levels).length - h.room levels) := by
  induction levels generalizing h flight with
  | nil =>
    match flight, hsingle with
    | [], _ => exact ⟨rfl, rfl⟩
    | [(k, e)], _ => exact ⟨rfl, rfl⟩
  | cons l colder ih =>
    match flight, hsingle with
    | [], _ =>
      have hfits := length_ordered_le hh.consistent (l :: colder)
      rw [List.foldl_nil, List.nil_append, List.take_of_length_le hfits,
        Nat.sub_eq_zero_of_le hfits]
      exact ⟨rfl, rfl⟩
    | [(k, e)], _ =>
      rw [List.nodup_cons] at hnodup
      have hcolder := length_ordered_le hh.consistent colder
      have hsame : ∀ m ∈ colder, (h.landed l k e).tier m = h.tier m := by
        intro m hm
        rw [tier_landed, if_neg]
        rintro rfl
        exact hnodup.1 hm
      obtain ⟨htier, hevicted⟩ := (hh.consistent l).ordered_put k e
      rw [(hh.consistent l).indexed.filter_ordered (hh.not_stored l)] at htier hevicted
      have hlanded := hh.landed l
      rw [List.append_nil] at hlanded
      obtain ⟨hordered, hcount⟩ := ih hnodup.2 ((h.tier l).length_put_evicted_le k e) hlanded
      rw [ordered_congr hsame, room_congr fun m hm => congrArg Tier.capacity (hsame m hm)]
        at hordered hcount
      -- The entry lands, since it is young and no tier holds its key.
      have hsettle : [(k, e)].foldl (settle now (l :: colder)) h =
          ((h.tier l).put k e).evicted.foldl (settle now colder) (h.landed l k e) := by
        rw [List.foldl_cons, List.foldl_nil, settle_cons, hh.not_expired l, hh.not_contains]
        rfl
      rw [hsettle, ordered_cons, ordered_cons, room_cons, tier_foldl_settle_of_not_mem hnodup.1,
        tier_landed, if_pos rfl, htier, hordered, hcount, hevicted]
      constructor
      · exact (take_append_of_fits ((k, e) :: (h.tier l).ordered) _ hcolder).symm
      · have hevictions : (h.landed l k e).counters.evictions = h.counters.evictions := by
          rw [Hierarchy.landed, takeOver_eq]
          rfl
        simp only [hevictions, List.length_append, List.length_drop, List.length_cons,
          List.length_nil]
        omega

end Tidy

/-- A write to the hottest tier as one on the list of all entries. -/
theorem Tidy.insertAt_hot (hh : h.Tidy [] now) (k : K) {e : Entry V}
    (hage : ∀ l, e.expired (h.tier l).ttl now = false) :
    (h.insertAt .hot k e now).ordered Level.all =
        ((k, e) :: (h.ordered Level.all).filter fun p => p.1 ≠ k).take (h.room Level.all) ∧
      (h.insertAt .hot k e now).counters.evictions = h.counters.evictions +
        (((k, e) :: (h.ordered Level.all).filter fun p => p.1 ≠ k).length - h.room Level.all) := by
  obtain ⟨htier, hevicted⟩ := (hh.consistent .hot).ordered_put k e
  have hplaced := hh.placed .hot k hage
  obtain ⟨hordered, hcount⟩ := hplaced.foldl_settle [.warm, .cold] (by decide)
    ((h.tier .hot).length_put_evicted_le k e)
  have hbelow : (h.placed .hot k e).ordered [.warm, .cold] =
      (h.ordered [.warm, .cold]).filter fun p => p.1 ≠ k := by
    simp only [ordered, List.flatMap_cons, List.flatMap_nil, List.append_nil, List.filter_append,
      tier_placed, reduceCtorEq, if_false, (hh.consistent _).indexed.ordered_remove]
  have hroom : (h.placed .hot k e).room [.warm, .cold] = h.room [.warm, .cold] :=
    room_congr fun m _ => h.capacity_placed .hot m k e
  have hcolder : ((h.ordered [.warm, .cold]).filter fun p => p.1 ≠ k).length ≤
      h.room [.warm, .cold] := by
    rw [← hbelow, ← hroom]
    exact length_ordered_le hplaced.consistent _
  have hinsert : h.insertAt .hot k e now =
      ((h.tier .hot).put k e).evicted.foldl (settle now [.warm, .cold]) (h.placed .hot k e) := rfl
  rw [hbelow, hroom] at hordered hcount
  rw [hinsert, Level.all, ordered_cons _ .hot, ordered_cons h .hot, room_cons,
    List.filter_append, ← List.cons_append, tier_foldl_settle_of_not_mem (by decide), tier_placed,
    if_pos rfl, htier, hordered, hcount, hevicted, counters_placed]
  constructor
  · exact (take_append_of_fits _ _ hcolder).symm
  · simp only [List.length_append, List.length_drop]
    omega

end TieredCache.Hierarchy
