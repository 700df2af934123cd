import TieredCache.Proofs.SessionRuns

/-!
# One residence for each key

Two tiers may both store a key, since a speculative write does not look for expired entries. What
survives every operation is that at most one of them holds it unexpired. An insertion is safe
because it either takes the key out of the other tiers or has found it unexpired in none of them.
-/

namespace TieredCache

namespace Hierarchy

variable {K V : Type} [DecidableEq K]

/-- All tiers are in order, and no two of them hold the same key unexpired. -/
structure Sound (h : Hierarchy K V) (now : Int) : Prop where
  consistent : ∀ l, (h.tier l).Consistent
  single : ∀ k l m, (h.tier l).contains k now → (h.tier m).contains k now → l = m

variable {now : Int} {h h' : Hierarchy K V}

/-- Taking entries away keeps a hierarchy sound. -/
theorem Sound.of_within (hh : h.Sound now) (hconsistent : ∀ l, (h'.tier l).Consistent)
    (hwithin : ∀ l, (h'.tier l).Within (h.tier l)) : h'.Sound now where
  consistent := hconsistent
  single k l m hl hm := hh.single k l m ((hwithin l).contains hl) ((hwithin m).contains hm)

theorem Sound.setTier {l : Level} {t : Tier K V} (hh : h.Sound now) (hconsistent : t.Consistent)
    (hwithin : t.Within (h.tier l)) : (h.setTier l t).Sound now := by
  apply hh.of_within
  · intro m
    rw [tier_setTier]
    split
    · exact hconsistent
    · exact hh.consistent m
  · exact h.within_setTier hwithin

/-- A key that is now held in one tier only, and else nothing new, keeps a hierarchy sound. -/
theorem Sound.of_insertion (hh : h.Sound now) (hconsistent : ∀ l, (h'.tier l).Consistent)
    (k : K) (l : Level) (hkey : ∀ m, m ≠ l → (h'.tier m).contains k now = false)
    (hothers : ∀ j m, j ≠ k → (h'.tier m).contains j now → (h.tier m).contains j now) :
    h'.Sound now where
  consistent := hconsistent
  single j m m' hm hm' := by
    by_cases hj : j = k
    · subst hj
      have hhome : ∀ m, (h'.tier m).contains j now → m = l := by
        intro m hm
        by_contra hne
        rw [hkey m hne] at hm
        exact absurd hm (by simp)
      rw [hhome m hm, hhome m' hm']
    · exact hh.single j m m' (hothers j m hj hm) (hothers j m' hj hm')

theorem Sound.placed (hh : h.Sound now) (l : Level) (k : K) (e : Entry V) :
    (h.placed l k e).Sound now := by
  refine hh.of_insertion ?_ k l ?_ ?_
  · intro m
    rw [tier_placed]
    split
    · exact (hh.consistent l).put k e
    · exact (hh.consistent m).remove k
  · intro m hm
    rw [tier_placed, if_neg hm]
    exact Tier.not_contains_remove_self _ k now
  · intro j m hj hcontains
    rw [tier_placed] at hcontains
    split at hcontains
    · rename_i hm
      subst hm
      exact Tier.contains_of_put hj hcontains
    · exact (Tier.remove_within _ k).contains hcontains

theorem Sound.of_put (hh : h.Sound now) {l : Level} {k : K} {e : Entry V}
    (hheld : h.contains k now = false)
    (htier : ∀ m, h'.tier m = if m = l then ((h.tier l).put k e).tier else h.tier m) :
    h'.Sound now := by
  rw [not_contains_iff] at hheld
  refine hh.of_insertion ?_ k l ?_ ?_
  · intro m
    rw [htier]
    split
    · exact (hh.consistent l).put k e
    · exact hh.consistent m
  · intro m hm
    rw [htier, if_neg hm]
    exact hheld m
  · intro j m hj hcontains
    rw [htier] at hcontains
    split at hcontains
    · rename_i hm
      subst hm
      exact Tier.contains_of_put hj hcontains
    · exact hcontains

theorem Sound.map {f : Tier K V → Tier K V} (hh : h.Sound now)
    (hconsistent : ∀ t, t.Consistent → (f t).Consistent) (hwithin : ∀ t, (f t).Within t) :
    ({ h with tiers := h.tiers.map f } : Hierarchy K V).Sound now := by
  have htier : ∀ l, ({ h with tiers := h.tiers.map f } : Hierarchy K V).tier l = f (h.tier l) :=
    fun l => PerLevel.get_map f h.tiers l
  apply hh.of_within
  · intro l
    rw [htier]
    exact hconsistent _ (hh.consistent l)
  · intro l
    rw [htier]
    exact hwithin _

theorem sound_keptByWrites (now : Int) :
    KeptByWrites now fun (h : Hierarchy K V) _ => h.Sound now where
  noted h tracker counters flight hh := ⟨hh.consistent, hh.single⟩
  lookedUp h l k hh := hh.setTier ((hh.consistent l).lookup k now) ((h.tier l).lookup_within k now)
  touched h l k hh := hh.setTier ((hh.consistent l).touch k) ((h.tier l).touch_within k)
  raised h source target k e _ _ hh := hh.placed target k e
  resized h l capacity hh := by
    have hset := hh.setTier ((hh.consistent l).resize capacity) ((h.tier l).resize_within capacity)
    rw [takeOver_eq]
    exact ⟨hset.consistent, hset.single⟩
  purged h hh := hh.map (fun t ht => ht.purge now) fun t => t.purge_within now
  gone h k e rest hh := ⟨hh.consistent, hh.single⟩
  superseded h k e rest _ hh := ⟨hh.consistent, hh.single⟩
  lands h k e rest l _ hheld hh := hh.of_put hheld fun m => tier_landed h l m k e
  written h l k v hh := hh.placed l k ⟨v, now⟩
  loaded h k v hheld hh := hh.of_put hheld fun m => tier_takeOver h .cold m _
  removed h k hh := hh.map (fun t ht => ht.remove k) fun t => t.remove_within k
  cleared h hh := hh.map (fun t _ => t.consistent_clear) Tier.clear_within

theorem sound_later (now : Int) (time : Nat) (h : Hierarchy K V) (hh : h.Sound now) :
    h.Sound (now + time) where
  consistent := hh.consistent
  single k l m hl hm := hh.single k l m (Tier.contains_of_later hl) (Tier.contains_of_later hm)

theorem sound_new {config : Config} {stripe : K → Nat} (hnew : new config stripe = .ok h)
    (now : Int) : h.Sound now := by
  obtain ⟨capacities, -, rfl⟩ := eq_fresh_of_new hnew
  constructor
  · intro l
    rw [tier_fresh]
    exact Tier.consistent_empty l _ _
  · intro k l m hl
    rw [tier_fresh] at hl
    exact absurd hl (by simp [Tier.contains, Tier.find?, Tier.empty])

end Hierarchy

namespace Session

variable {K V : Type} [DecidableEq K]

theorem sound_run {config : Config} {stripe : K → Nat} {s : Session K V}
    (hnew : Hierarchy.new config stripe = .ok s.hierarchy) (ops : List (Operation K V)) :
    (s.run ops).2.hierarchy.Sound (s.run ops).2.now :=
  run_kept (P := fun now h _ => h.Sound now) Hierarchy.sound_keptByWrites Hierarchy.sound_later s
    ops (Hierarchy.sound_new hnew s.now)

/-- After every run each key is held unexpired in at most one tier, no tier stores more than it has
room for, and every recency order lists the stored keys, each once. -/
theorem single_residency {config : Config} {stripe : K → Nat} (s : Session K V)
    (hnew : Hierarchy.new config stripe = .ok s.hierarchy) (ops : List (Operation K V)) :
    let t := (s.run ops).2
    (∀ k l m, (t.hierarchy.tier l).contains k t.now → (t.hierarchy.tier m).contains k t.now →
      l = m) ∧
    (∀ l, (t.hierarchy.tier l).size ≤ (t.hierarchy.tier l).capacity.value) ∧
    ∀ l, (t.hierarchy.tier l).recency.Nodup ∧
      ∀ k, k ∈ (t.hierarchy.tier l).recency ↔ (t.hierarchy.tier l).store.contains k := by
  intro t
  have hsound := sound_run hnew ops
  refine ⟨hsound.single, ?_, ?_⟩
  · intro l
    rw [← (hsound.consistent l).indexed.length_recency]
    exact (hsound.consistent l).fits
  · intro l
    have hindexed := (hsound.consistent l).indexed
    exact ⟨hindexed.nodup, hindexed.mem_recency_iff⟩

/-- An expired entry and a speculative one of the same key are both stored, but only one is held. -/
theorem single_residency_beside_leftover :
    let t := (narrowStart.run [.put 1 10, .advance 6, .putSpeculative 1 11]).2
    Hierarchy.new narrow (fun _ => 0) = .ok narrowStart.hierarchy ∧
      (t.hierarchy.tier .hot).store.contains 1 ∧ (t.hierarchy.tier .cold).contains 1 t.now ∧
      (t.hierarchy.tier .hot).contains 1 t.now = false := by
  intro t
  have hnew : Hierarchy.new narrow (fun _ => 0) = .ok narrowStart.hierarchy := rfl
  have hcold : (t.hierarchy.tier .cold).contains 1 t.now := by decide
  refine ⟨hnew, by decide, hcold, ?_⟩
  rw [← Bool.not_eq_true]
  intro hhot
  have hsame := (single_residency narrowStart hnew _).1 1 .hot .cold hhot hcold
  exact absurd hsame (by decide)

end Session

end TieredCache
