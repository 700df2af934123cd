import TieredCache.Proofs.LookupEffects

/-!
# Where a key ends up

After a write or a served lookup one tier holds the key, as its most recently touched one. Which tier
that is depends on the one that held the key before and on the one that its history has earned. The
fall of what the key displaces starts below it.
-/

namespace TieredCache

namespace Level

theorem not_isHotterThan_self (l : Level) : ¬ l.isHotterThan l := by
  cases l <;> decide

/-- A move up does not end in a colder level. -/
theorem not_isHotterThan_ite {c : Prop} [Decidable c] {l m : Level} (h : c → m.isHotterThan l) :
    ¬ l.isHotterThan (if c then m else l) := by
  split
  · rename_i hc
    have hm := h hc
    cases l <;> cases m <;> first | decide | exact absurd hm (by decide)
  · exact not_isHotterThan_self l

theorem not_isHotterThan_hotter (l m : Level) :
    ¬ l.isHotterThan (if l.isHotterThan m then l else m) := by
  cases l <;> cases m <;> decide

end Level

namespace Tier

variable {K V : Type} [DecidableEq K]

theorem recency_put (t : Tier K V) (k : K) (e : Entry V) :
    (t.put k e).tier.recency.head? = some k := by
  obtain ⟨order, hput⟩ | ⟨j, d, order, -, -, hput⟩ := t.put_cases k e <;> rw [hput] <;> rfl

theorem Indexed.recency_touch {t : Tier K V} (h : t.Indexed) {k : K} {e : Entry V}
    (he : t.store.get? k = some e) : (t.touch k).recency.head? = some k := by
  have hk : k ∈ t.recency := by
    rw [h.mem_recency_iff, Store.contains, he]
    rfl
  rw [Tier.touch, if_pos hk]
  rfl

end Tier

namespace Hierarchy

variable {K V : Type} [DecidableEq K] {now : Int} {h h' : Hierarchy K V} {k : K} {l : Level}
  {e : Entry V}

/-! ### The tier that holds a key -/

theorem levelOf?_eq_none_iff : h.levelOf? k now = none ↔ h.contains k now = false := by
  rw [not_contains_iff, levelOf?, List.find?_eq_none]
  constructor
  · intro hnone l
    simpa using hnone l (Level.mem_all l)
  · intro hnone l _
    simp [hnone l]

theorem Sound.levelOf?_eq_some (hh : h.Sound now) (hl : (h.tier l).contains k now) :
    h.levelOf? k now = some l := by
  have hsome : (h.levelOf? k now).isSome := by
    rw [levelOf?, List.find?_isSome]
    exact ⟨l, Level.mem_all l, hl⟩
  obtain ⟨m, hm⟩ := Option.isSome_iff_exists.1 hsome
  have hcontains : (h.tier m).contains k now := by simpa using List.find?_some hm
  rw [hm, hh.single k m l hcontains hl]

/-- A key is held in one tier only, and is the most recently touched one there. -/
structure HeldAt (h : Hierarchy K V) (now : Int) (k : K) (l : Level) (e : Entry V) : Prop where
  found : (h.tier l).find? k now = some e
  only : ∀ m, (h.tier m).contains k now → m = l
  front : (h.tier l).recency.head? = some k

theorem tier_insertAt_self (h : Hierarchy K V) (l : Level) (k : K) (e : Entry V) (now : Int) :
    (h.insertAt l k e now).tier l = ((h.tier l).put k e).tier := by
  rw [insertAt, place_eq]
  simp only [settleAll]
  rw [tier_foldl_settle_of_not_mem l.not_mem_below, tier_placed, if_pos rfl]

/-- What an insertion displaces falls past the inserted key. -/
theorem heldAt_insertAt (hage : e.expired (h.tier l).ttl now = false) :
    (h.insertAt l k e now).HeldAt now k l e where
  found := by
    rw [Tier.find?_eq_some_iff, get?_insertAt, if_pos rfl, tier_insertAt_self,
      (Tier.put_alike _ _ _).ttl]
    exact ⟨rfl, hage⟩
  only m hm := by
    by_contra hne
    rw [Tier.contains, Tier.find?, get?_insertAt, if_neg hne] at hm
    exact absurd hm (by simp)
  front := by
    rw [tier_insertAt_self]
    exact Tier.recency_put _ k e

theorem tier_answered_self (h : Hierarchy K V) (k : K) (l : Level) (now : Int) :
    (h.answered k l now).tier l = ((probe k now Level.all h).2.tier l).touch k :=
  tier_setTier_self _ l _

theorem heldAt_answered (hh : h.Sound now) (hfind : (h.tier l).find? k now = some e) :
    (h.answered k l now).HeldAt now k l e where
  found := by rw [find?_answered, hfind]
  only m hm := by
    rw [Tier.contains, find?_answered] at hm
    exact hh.single k m l hm (Tier.contains_of_find? hfind)
  front := by
    have hprobed : ((probe k now Level.all h).2.tier l).find? k now = some e := by
      rw [find?_probe, hfind]
    have hsound := (sound_keptByWrites now).toKept.traced.probe k Level.all h hh
    have hstored := (Tier.find?_eq_some_iff.1 hprobed).1
    rw [tier_answered_self]
    exact (hsound.consistent l).indexed.recency_touch hstored

/-! ### Writes -/

theorem heldAt_put (h : Hierarchy K V) (k : K) (v : V) (now : Int) :
    (h.put k v now).HeldAt now k (h.destination k now) ⟨v, now⟩ := by
  rw [put_eq]
  exact heldAt_insertAt (Entry.not_expired_when_written v _ now)

theorem destination_of_not_held (hk : h.contains k now = false) :
    h.destination k now = h.earned k now := by
  rw [destination, levelOf?_eq_none_iff.2 hk]
  rfl

theorem Sound.destination_of_held (hh : h.Sound now) (hl : (h.tier l).contains k now) :
    h.destination k now = if l.isHotterThan (h.earned k now) then l else h.earned k now := by
  rw [destination, hh.levelOf?_eq_some hl]
  rfl

/-! ### Lookups -/

/-- The tier that an entry rises to when a lookup finds it. -/
def rise (h : Hierarchy K V) (k : K) (l : Level) (e : Entry V) (now : Int) : Level :=
  if (h.earned k now).isHotterThan l ∧ e.expired (h.tier (h.earned k now)).ttl now = false then
    h.earned k now
  else l

theorem Sound.get_of_held (hh : h.Sound now) (hfind : (h.tier l).find? k now = some e) :
    (h.get k now).1 = some e.value ∧ (h.get k now).2.HeldAt now k (h.rise k l e now) e := by
  have hlevel := hh.levelOf?_eq_some (Tier.contains_of_find? hfind)
  obtain ⟨d, hd, hget⟩ := get_of_served hlevel
  obtain rfl := Option.some.inj (hfind.symm.trans hd)
  rw [hget, rise]
  refine ⟨rfl, ?_⟩
  simp only
  split
  · rename_i hmoves
    have hage : e.expired ((h.answered k l now).tier (h.earned k now)).ttl now = false := by
      rw [ttl_answered, hmoves.2]
    exact heldAt_insertAt hage
  · exact heldAt_answered hh hfind

theorem Sound.isSome_get_iff (hh : h.Sound now) :
    (h.get k now).1.isSome ↔ ∃ l, (h.tier l).contains k now := by
  constructor
  · intro hsome
    cases hlevel : h.levelOf? k now with
    | none =>
      rw [get_of_missed hlevel] at hsome
      exact absurd hsome (by simp)
    | some l =>
      obtain ⟨e, hfind, -⟩ := get_of_served hlevel
      exact ⟨l, Tier.contains_of_find? hfind⟩
  · rintro ⟨l, hl⟩
    obtain ⟨e, hfind⟩ := Option.isSome_iff_exists.1 hl
    rw [(hh.get_of_held hfind).1]
    rfl

/-- Neither the write nor the lookup of a key takes it to a colder tier. -/
theorem Sound.not_colder (hh : h.Sound now) (v : V) {m : Level} (hl : (h.tier l).contains k now)
    (hm : ((h.put k v now).tier m).contains k now ∨ ((h.get k now).2.tier m).contains k now) :
    ¬ l.isHotterThan m := by
  rcases hm with hput | hget
  · rw [(h.heldAt_put k v now).only m hput, hh.destination_of_held hl]
    exact Level.not_isHotterThan_hotter l _
  · obtain ⟨e, hfind⟩ := Option.isSome_iff_exists.1 hl
    rw [(hh.get_of_held hfind).2.only m hget]
    exact Level.not_isHotterThan_ite And.left

end Hierarchy

namespace Session

variable {K V : Type} [DecidableEq K]

/-- After a write one tier holds the key, the hotter of the one that its history earns and the one
that held it before. A lookup finds a key that some tier holds, and then the key is in the tier that
its history earns, if that is hotter and the entry young enough for it, or else where it was. In
both cases it is the most recently touched key there, and never in a colder tier than before. The
history counts the access, and its idle time is the gap to the access before. -/
theorem access_places_key {config : Config} {stripe : K → Nat} (s : Session K V)
    (hnew : Hierarchy.new config stripe = .ok s.hierarchy) (ops : List (Operation K V)) (k : K)
    (v : V) :
    let t := (s.run ops).2
    let h := t.hierarchy
    let before := (h.tracker.get? k).getD ⟨0, t.now⟩
    let earned := h.config.migration.placement
      ⟨min (before.frequency + 1) Tracker.frequencyLimit, before.lastAccess⟩ t.now
    (∃ target, (h.put k v t.now).HeldAt t.now k target ⟨v, t.now⟩ ∧
      (h.contains k t.now = false → target = earned) ∧
      ∀ l, (h.tier l).contains k t.now → target = if l.isHotterThan earned then l else earned) ∧
    ((h.get k t.now).1.isSome ↔ ∃ l, (h.tier l).contains k t.now) ∧
    (∀ l e, (h.tier l).find? k t.now = some e → (h.get k t.now).1 = some e.value ∧
      (h.get k t.now).2.HeldAt t.now k
        (if earned.isHotterThan l ∧ e.expired (h.tier earned).ttl t.now = false then earned
        else l) e) ∧
    ∀ l m, (h.tier l).contains k t.now → ((h.put k v t.now).tier m).contains k t.now ∨
      ((h.get k t.now).2.tier m).contains k t.now → ¬ l.isHotterThan m := by
  intro t h before earned
  have hsound : h.Sound t.now := sound_run hnew ops
  exact ⟨⟨h.destination k t.now, h.heldAt_put k v t.now, Hierarchy.destination_of_not_held,
    fun l => hsound.destination_of_held⟩, hsound.isSome_get_iff, fun l e => hsound.get_of_held,
    fun l m => hsound.not_colder v⟩

/-- A key in the middle tier goes back to the hottest one, by a write as by a lookup. -/
theorem access_places_key_of_two :
    let t := (narrowStart.run [.put 1 10, .put 2 20]).2
    Hierarchy.new narrow (fun _ => 0) = .ok narrowStart.hierarchy ∧
      (t.hierarchy.tier .warm).find? 1 t.now = some ⟨10, 0⟩ ∧
      (t.hierarchy.put 1 11 t.now).HeldAt t.now 1 .hot ⟨11, 0⟩ ∧
      (t.hierarchy.get 1 t.now).2.HeldAt t.now 1 .hot ⟨10, 0⟩ := by
  have hnew : Hierarchy.new narrow (fun _ => 0) = .ok narrowStart.hierarchy := rfl
  obtain ⟨⟨target, hput, -, htarget⟩, -, hget, -⟩ :=
    access_places_key narrowStart hnew [.put 1 10, .put 2 20] 1 11
  obtain rfl := htarget .warm (by decide)
  exact ⟨hnew, by decide, hput, (hget .warm ⟨10, 0⟩ (by decide)).2⟩

end Session

end TieredCache
