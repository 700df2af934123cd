import TieredCache.Proofs.Cascade
import TieredCache.Proofs.SingleResidency

/-!
# Accesses in the list of all entries

While no entry is too old for any tier, a lookup changes no tier, and the entry it finds is the only
one of its key. An access that earns the hottest tier moves the entry to the front of the list.
-/

namespace TieredCache.Hierarchy

variable {K V : Type}

/-- Whether all stored entries are young enough for every tier. -/
def isYoung (h : Hierarchy K V) (now : Int) : Bool :=
  Level.all.all fun l => (h.tier l).store.entries.all fun p =>
    Level.all.all fun m => !p.2.expired (h.tier m).ttl now

variable {h : Hierarchy K V} {now : Int}

theorem Tidy.noted (hh : h.Tidy [] now) (tracker : Tracker K) (counters : Counters) :
    Tidy { h with tracker := tracker, counters := counters } [] now :=
  ⟨hh.consistent, hh.distinct, hh.young⟩

variable [DecidableEq K]

theorem not_expired_of_isYoung (hyoung : h.isYoung now) {l : Level} {k : K} {e : Entry V}
    (he : (h.tier l).store.get? k = some e) (m : Level) :
    e.expired (h.tier m).ttl now = false := by
  simp only [isYoung, List.all_eq_true, Bool.not_eq_true'] at hyoung
  exact hyoung l (Level.mem_all l) (k, e) ((Store.mem_entries_iff _ k e).2 he) m (Level.mem_all m)

/-- A sound hierarchy without old entries is tidy. -/
theorem Sound.tidy (hh : h.Sound now) (hyoung : h.isYoung now) : h.Tidy [] now := by
  have hdisjoint : ∀ l m, l ≠ m → Disjoint ((h.tier l).contents.map Prod.fst)
      ((h.tier m).contents.map Prod.fst) := by
    intro l m hne
    rw [Multiset.disjoint_left]
    intro k hl hm
    have hcontains : ∀ l, k ∈ (h.tier l).contents.map Prod.fst → (h.tier l).contains k now := by
      intro l hk
      obtain ⟨⟨j, e⟩, he, rfl⟩ := Multiset.mem_map.1 hk
      rw [Tier.mem_contents_iff] at he
      exact (Tier.contains_iff _ j now).2 ⟨e, he, not_expired_of_isYoung hyoung he l⟩
    exact hne (hh.single k l m (hcontains l hl) (hcontains m hm))
  have hnodup : ∀ l, ((h.tier l).contents.map Prod.fst).Nodup :=
    fun l => Multiset.coe_nodup.2 (h.tier l).store.nodup_keys
  refine ⟨hh.consistent, ?_, ?_⟩
  · rw [Multiset.coe_nil, zero_add, contents, Multiset.map_add, Multiset.map_add,
      Multiset.nodup_add, Multiset.nodup_add, Multiset.disjoint_add_left]
    exact ⟨⟨hnodup _, hnodup _, hdisjoint _ _ (by decide)⟩, hnodup _,
      hdisjoint _ _ (by decide), hdisjoint _ _ (by decide)⟩
  · rintro ⟨k, e⟩ hp m
    rw [Multiset.coe_nil, zero_add, mem_contents_iff] at hp
    obtain ⟨l, he⟩ := hp
    exact not_expired_of_isYoung hyoung he m

/-- The first tier that stores a key, and the entry. -/
def located? (h : Hierarchy K V) (k : K) : Option (Level × Entry V) :=
  Level.all.findSome? fun l => ((h.tier l).store.get? k).map fun e => (l, e)

theorem stored_of_located? {k : K} {l : Level} {e : Entry V} (hk : h.located? k = some (l, e)) :
    (h.tier l).store.get? k = some e := by
  obtain ⟨m, -, hm⟩ := List.exists_of_findSome?_eq_some hk
  obtain ⟨d, hd, heq⟩ := Option.map_eq_some_iff.1 hm
  obtain ⟨rfl, rfl⟩ := Prod.mk.inj heq
  exact hd

namespace Tidy

theorem young_stored (hh : h.Tidy [] now) {l : Level} {k : K} {e : Entry V}
    (he : (h.tier l).store.get? k = some e) (m : Level) :
    e.expired (h.tier m).ttl now = false := by
  refine hh.young (k, e) ?_ m
  rw [Multiset.coe_nil, zero_add, mem_contents_iff]
  exact ⟨l, he⟩

theorem find?_eq (hh : h.Tidy [] now) (l : Level) (k : K) :
    (h.tier l).find? k now = (h.tier l).store.get? k := by
  rw [Tier.find?]
  cases he : (h.tier l).store.get? k with
  | none => rfl
  | some e => rw [Option.filter_some, hh.young_stored he l, Bool.not_false, if_pos rfl]

theorem probe_eq (hh : h.Tidy [] now) (k : K) (levels : List Level) :
    probe k now levels h =
      (levels.findSome? fun l => ((h.tier l).store.get? k).map fun e => (l, e), h) := by
  induction levels with
  | nil => rfl
  | cons l colder ih =>
    rw [probe, List.findSome?_cons]
    cases he : (h.tier l).store.get? k with
    | none =>
      have hlookup : (h.tier l).lookup k now = (none, h.tier l) := by rw [Tier.lookup, he]
      simp only [hlookup, setTier_tier]
      exact ih
    | some e =>
      have hfind : (h.tier l).find? k now = some e := by rw [hh.find?_eq, he]
      simp only [Tier.lookup_of_find? hfind, setTier_tier]
      rfl

theorem get_of_located? (hh : h.Tidy [] now) {k : K} {l : Level} {e : Entry V}
    (hk : h.located? k = some (l, e)) : h.get k now = (some e.value, h.serve k l now) := by
  have hprobe : probe k now Level.all h = (h.located? k, h) := hh.probe_eq k Level.all
  simp only [get, hprobe, hk]

theorem get_of_not_located (hh : h.Tidy [] now) {k : K} (hk : h.located? k = none) :
    h.get k now = (none, { h with counters := h.counters.miss }) := by
  have hprobe : probe k now Level.all h = (h.located? k, h) := hh.probe_eq k Level.all
  simp only [get, hprobe, hk]

theorem contains_eq (hh : h.Tidy [] now) (k : K) : h.contains k now = (h.located? k).isSome := by
  rw [located?, List.isSome_findSome?, contains]
  congr 1
  funext l
  rw [Tier.contains, hh.find?_eq, Option.isSome_map]

/-- What is stored for a key is its entry in the list of all entries. -/
theorem find?_ordered (hh : h.Tidy [] now) (k : K) :
    ((h.ordered Level.all).find? fun p => p.1 = k) = (h.located? k).map fun p => (k, p.2) := by
  rw [ordered, List.find?_flatMap, located?, List.map_findSome?]
  congr 1
  funext l
  rw [(hh.consistent l).indexed.find?_ordered, Function.comp_apply, Option.map_map]
  rfl

theorem touched (hh : h.Tidy [] now) (l : Level) (k : K) :
    (h.setTier l ((h.tier l).touch k)).Tidy [] now := by
  have hwithin := (h.tier l).touch_within k
  apply hh.of_le
  · intro m
    rw [tier_setTier]
    split
    · exact (hh.consistent l).touch k
    · exact hh.consistent m
  · intro m
    rw [tier_setTier]
    split
    · rename_i hm
      rw [hwithin.ttl, hm]
    · rfl
  · exact add_le_add_right (h.contents_setTier_le l hwithin) _

end Tidy

theorem filter_ordered_touch (hconsistent : ∀ l, (h.tier l).Consistent) {l : Level} {k : K}
    {e : Entry V} (he : (h.tier l).store.get? k = some e) (levels : List Level) :
    (((h.setTier l ((h.tier l).touch k)).ordered levels).filter fun p => p.1 ≠ k) =
      (h.ordered levels).filter fun p => p.1 ≠ k := by
  rw [ordered, ordered, List.filter_flatMap, List.filter_flatMap]
  apply List.flatMap_congr
  intro m _
  rw [tier_setTier]
  split
  · rename_i hm
    rw [hm, (hconsistent l).indexed.ordered_touch he, List.filter_cons_of_neg (by simp),
      List.filter_filter]
    simp
  · rfl

theorem placed_counters (h : Hierarchy K V) (l : Level) (k : K) (e : Entry V)
    (counters : Counters) :
    { h.placed l k e with counters := counters } =
      ({ h with counters := counters } : Hierarchy K V).placed l k e := by
  simp only [placed, takeOver_eq]
  cases l <;> rfl

theorem promote_eq_insertAt {source target : Level} {k : K} {e : Entry V}
    (hfind : (h.tier source).find? k now = some e)
    (hage : e.expired (h.tier target).ttl now = false) :
    h.promote k source target now =
      ({ h with counters := { h.counters with promotions := h.counters.promotions + 1 } } :
        Hierarchy K V).insertAt target k e now := by
  rw [promote, Tier.lookup_of_find? hfind]
  simp only [setTier_tier, place_eq, hage, Bool.false_eq_true, if_false, counters_placed,
    placed_counters]
  rfl

theorem capacity_insertAt (h : Hierarchy K V) (l m : Level) (k : K) (e : Entry V) (now : Int) :
    ((h.insertAt l k e now).tier m).capacity = (h.tier m).capacity := by
  rw [insertAt, place_eq]
  simp only
  rw [capacity_settleAll, capacity_placed]

theorem serve_of_hot {k : K} (l : Level)
    (hhot : h.config.migration.placement (h.tracker.record k now).1 now = .hot) :
    h.serve k l now =
      if l = .hot then h.served l k now else (h.served l k now).promote k l .hot now := by
  rw [serve_eq, Migration.promotion?, hhot]
  cases l <;> rfl

theorem filter_ordered_of_not_stored (hconsistent : ∀ l, (h.tier l).Consistent)
    {levels : List Level} {k : K} (habsent : ∀ l ∈ levels, (h.tier l).store.get? k = none) :
    ((h.ordered levels).filter fun p => p.1 ≠ k) = h.ordered levels := by
  rw [ordered, List.filter_flatMap]
  apply List.flatMap_congr
  intro l hl
  exact (hconsistent l).indexed.filter_ordered (habsent l hl)

theorem mem_ordered_of_stored (hconsistent : ∀ l, (h.tier l).Consistent) {l : Level} {k : K}
    {e : Entry V} (he : (h.tier l).store.get? k = some e) : (k, e) ∈ h.ordered Level.all :=
  List.mem_flatMap.2 ⟨l, Level.mem_all l, ((hconsistent l).indexed.mem_ordered_iff k e).2 he⟩

namespace Tidy

theorem length_front_le (hh : h.Tidy [] now) {l : Level} {k : K} {e : Entry V}
    (he : (h.tier l).store.get? k = some e) :
    ((k, e) :: (h.ordered Level.all).filter fun p => p.1 ≠ k).length ≤ h.room Level.all := by
  have hless : ((h.ordered Level.all).filter fun p => p.1 ≠ k).length <
      (h.ordered Level.all).length :=
    List.length_filter_lt_length_iff_exists.2
      ⟨(k, e), mem_ordered_of_stored hh.consistent he, by simp⟩
  exact Nat.le_trans hless (length_ordered_le hh.consistent Level.all)

/-- A touch in the hottest tier moves its entry to the front. -/
theorem touch_hot (hh : h.Tidy [] now) {k : K} {e : Entry V}
    (he : (h.tier .hot).store.get? k = some e) :
    (h.setTier .hot ((h.tier .hot).touch k)).ordered Level.all =
      (k, e) :: (h.ordered Level.all).filter fun p => p.1 ≠ k := by
  have hothers : ((h.ordered [.warm, .cold]).filter fun p => p.1 ≠ k) =
      h.ordered [.warm, .cold] := by
    apply filter_ordered_of_not_stored hh.consistent
    intro m hm
    apply Distinct.stored_once hh.distinct he
    rintro rfl
    exact absurd hm (by decide)
  have hbelow : (h.setTier .hot ((h.tier .hot).touch k)).ordered [.warm, .cold] =
      h.ordered [.warm, .cold] := rfl
  rw [Level.all, ordered_cons _ .hot, ordered_cons h .hot, List.filter_append, hothers, hbelow,
    tier_setTier_self, (hh.consistent .hot).indexed.ordered_touch he, List.cons_append]

/-- A promotion to the hottest tier moves its entry to the front, and nothing is given up. -/
theorem promote_hot (hh : h.Tidy [] now) {l : Level} {k : K} {e : Entry V}
    (he : (h.tier l).store.get? k = some e) :
    (h.promote k l .hot now).ordered Level.all =
        (k, e) :: (h.ordered Level.all).filter (fun p => p.1 ≠ k) ∧
      (h.promote k l .hot now).counters.evictions = h.counters.evictions ∧
      (h.promote k l .hot now).room Level.all = h.room Level.all := by
  have hage := hh.young_stored he
  have hfind : (h.tier l).find? k now = some e := by rw [hh.find?_eq, he]
  -- The key is stored already, so its entry at the front needs no more room than there is.
  have hlength := hh.length_front_le he
  obtain ⟨hordered, hcount⟩ := (hh.noted h.tracker
    { h.counters with promotions := h.counters.promotions + 1 }).insertAt_hot k hage
  rw [promote_eq_insertAt hfind (hage .hot)]
  refine ⟨?_, ?_, ?_⟩
  · exact hordered.trans (List.take_of_length_le hlength)
  · exact hcount.trans (congrArg (h.counters.evictions + ·) (Nat.sub_eq_zero_of_le hlength))
  · exact room_congr fun m _ => capacity_insertAt _ .hot m k e now

/-- A served lookup that earns the hottest tier moves its entry to the front. -/
theorem serve (hh : h.Tidy [] now) {l : Level} {k : K} {e : Entry V}
    (he : (h.tier l).store.get? k = some e)
    (hhot : h.config.migration.placement (h.tracker.record k now).1 now = .hot) :
    (h.serve k l now).ordered Level.all =
        (k, e) :: (h.ordered Level.all).filter (fun p => p.1 ≠ k) ∧
      (h.serve k l now).counters.evictions = h.counters.evictions ∧
      (h.serve k l now).room Level.all = h.room Level.all := by
  have hroom : (h.setTier l ((h.tier l).touch k)).room Level.all = h.room Level.all := by
    apply room_congr
    intro m _
    rw [tier_setTier]
    split
    · rename_i hm
      rw [(Tier.touch_alike _ _).capacity, hm]
    · rfl
  rw [serve_of_hot l hhot]
  split
  · rename_i hl
    subst hl
    exact ⟨hh.touch_hot he, rfl, hroom⟩
  · have hstored : ((h.served l k now).tier l).store.get? k = some e := by
      change ((h.setTier l ((h.tier l).touch k)).tier l).store.get? k = some e
      rw [tier_setTier_self, Tier.store_touch, he]
    have hserved : (h.served l k now).Tidy [] now := (hh.touched l k).noted _ _
    obtain ⟨hordered, hcount, hpromoted⟩ := hserved.promote_hot hstored
    refine ⟨?_, hcount, hpromoted.trans hroom⟩
    rw [hordered]
    exact congrArg ((k, e) :: ·) (filter_ordered_touch hh.consistent he Level.all)

end Tidy

end TieredCache.Hierarchy
