import TieredCache.Hierarchy
import TieredCache.Proofs.TierSteps

/-!
# How displaced entries settle

An entry in flight is in no tier. `foldl_settle_induction` reduces what holds after all of them have
settled to the three ends of one round: the entry is given up, it is superseded, or it lands and
brings at most one other entry into flight.
-/

namespace TieredCache

theorem Level.colder_of_below_eq_nil {l : Level} (h : l.below = []) : l.colder = none := by
  cases l with
  | hot => exact absurd h (by decide)
  | warm => exact absurd h (by decide)
  | cold => rfl

theorem Level.colder_of_below_eq_cons {l next : Level} {levels : List Level}
    (h : l.below = next :: levels) : l.colder = some next ∧ levels = next.below := by
  cases l <;> cases h <;> exact ⟨rfl, rfl⟩

namespace Hierarchy

variable {K V : Type}

theorem foldl_startMove (h : Hierarchy K V) (keys : List K) :
    keys.foldl startMove h =
      { h with moves := keys.foldl (fun m k => m.start (h.stripe k)) h.moves } := by
  induction keys generalizing h with
  | nil => rfl
  | cons k keys ih => rw [List.foldl_cons, ih, List.foldl_cons]; rfl

/-- Displaced entries with the tier that they have left. -/
def sentFrom (l : Level) (evicted : List (K × Entry V)) : List (Level × K × Entry V) :=
  evicted.map fun p => (l, p)

@[simp] theorem map_snd_sentFrom (l : Level) (evicted : List (K × Entry V)) :
    (sentFrom l evicted).map Prod.snd = evicted := by
  rw [sentFrom, List.map_map]
  exact List.map_id' evicted

/-- A takeover changes one tier and opens moves, and nothing else. -/
theorem takeOver_eq (h : Hierarchy K V) (l : Level) (d : Displacement K V) :
    h.takeOver l d = { h.setTier l d.tier with
      moves := d.announced.foldl (fun m k => m.start (h.stripe k)) h.moves } := by
  rw [takeOver, foldl_startMove]
  rfl

@[simp] theorem tier_startMove (h : Hierarchy K V) (k : K) (l : Level) :
    (h.startMove k).tier l = h.tier l := rfl

@[simp] theorem tier_finishMove (h : Hierarchy K V) (k : K) (l : Level) :
    (h.finishMove k).tier l = h.tier l := rfl

@[simp] theorem tier_countDemotion (h : Hierarchy K V) (l : Level) :
    h.countDemotion.tier l = h.tier l := rfl

theorem tier_setTier (h : Hierarchy K V) (l m : Level) (t : Tier K V) :
    (h.setTier l t).tier m = if m = l then t else h.tier m := by
  by_cases hm : m = l
  · subst hm
    rw [tier_setTier_self, if_pos rfl]
  · rw [tier_setTier_of_ne h t hm, if_neg hm]

@[simp] theorem tier_takeOver (h : Hierarchy K V) (l m : Level) (d : Displacement K V) :
    (h.takeOver l d).tier m = if m = l then d.tier else h.tier m := by
  rw [takeOver_eq]
  exact tier_setTier h l m d.tier

@[simp] theorem tier_clear (h : Hierarchy K V) (l : Level) : h.clear.tier l = (h.tier l).clear :=
  PerLevel.get_map Tier.clear h.tiers l

variable [DecidableEq K]

@[simp] theorem tier_remove (h : Hierarchy K V) (k : K) (l : Level) :
    (h.remove k).tier l = ((h.tier l).remove k).2 := by
  cases l <;> rfl

@[simp] theorem tier_purgeExpired (h : Hierarchy K V) (now : Int) (l : Level) :
    (h.purgeExpired now).2.tier l = ((h.tier l).purge now).2 := by
  cases l <;> rfl

theorem within_setTier (h : Hierarchy K V) {l : Level} {t : Tier K V} (ht : t.Within (h.tier l))
    (m : Level) : ((h.setTier l t).tier m).Within (h.tier m) := by
  rw [tier_setTier]
  split
  · rename_i hm
    exact hm ▸ ht
  · exact .refl _

@[simp] theorem tier_removeOthers (h : Hierarchy K V) (k : K) (keep l : Level) :
    (h.removeOthers k keep).tier l = if l = keep then h.tier l else ((h.tier l).remove k).2 := by
  cases keep <;> cases l <;> rfl

/-- Taking out copies changes nothing but tiers. -/
theorem removeOthers_eq (h : Hierarchy K V) (k : K) (keep : Level) :
    h.removeOthers k keep = { h with tiers := (h.removeOthers k keep).tiers } := by
  cases keep <;> rfl

theorem not_contains_iff (h : Hierarchy K V) (k : K) (now : Int) :
    h.contains k now = false ↔ ∀ l, (h.tier l).contains k now = false := by
  rw [contains, List.any_eq_false]
  constructor
  · intro hall l
    simpa using hall l (Level.mem_all l)
  · intro hall l _
    simpa using hall l

/-- Once the entry in flight lands, its move is closed and those of the displaced entries are
open. -/
def landed (h : Hierarchy K V) (l : Level) (k : K) (e : Entry V) : Hierarchy K V :=
  (h.countDemotion.takeOver l ((h.tier l).put k e)).finishMove k

theorem tier_landed (h : Hierarchy K V) (l m : Level) (k : K) (e : Entry V) :
    (h.landed l k e).tier m = if m = l then ((h.tier l).put k e).tier else h.tier m := by
  rw [landed, tier_finishMove, tier_takeOver, tier_countDemotion]

theorem settle_cons (now : Int) (l : Level) (colder : List Level) (h : Hierarchy K V) (k : K)
    (e : Entry V) :
    settle now (l :: colder) h (k, e) =
      if e.expired (h.tier l).ttl now then h.countEviction.finishMove k
      else if h.contains k now then h.finishMove k
      else ((h.tier l).put k e).evicted.foldl (settle now colder) (h.landed l k e) := rfl

/-- Settling keeps what is kept by each end of a round. The relation is between the hierarchy and
the entries still in flight. -/
theorem foldl_settle_induction {now : Int} (P : Hierarchy K V → List (K × Entry V) → Prop)
    (hgone : ∀ h k e rest, P h ((k, e) :: rest) → P (h.countEviction.finishMove k) rest)
    (hsuperseded : ∀ h k e rest, h.contains k now = true → P h ((k, e) :: rest) →
      P (h.finishMove k) rest)
    (levels : List Level)
    (hlands : ∀ h k e rest, ∀ l ∈ levels, e.expired (h.tier l).ttl now = false →
      h.contains k now = false → P h ((k, e) :: rest) →
      P (h.landed l k e) (((h.tier l).put k e).evicted ++ rest))
    (h : Hierarchy K V) (victims rest : List (K × Entry V))
    (hP : P h (victims ++ rest)) : P (victims.foldl (settle now levels) h) rest := by
  -- The outer induction is on the depth of a cascade, the inner ones on the entries at its top.
  induction levels generalizing h victims rest with
  | nil =>
    induction victims generalizing h with
    | nil => exact hP
    | cons victim victims ih =>
      obtain ⟨k, e⟩ := victim
      exact ih _ (hgone h k e _ hP)
  | cons l colder ihlevels =>
    induction victims generalizing h with
    | nil => exact hP
    | cons victim victims ih =>
      obtain ⟨k, e⟩ := victim
      rw [List.foldl_cons]
      apply ih
      rw [settle_cons]
      split
      · exact hgone h k e _ hP
      · rename_i hage
        split
        · rename_i hheld
          exact hsuperseded h k e _ hheld hP
        · rename_i hheld
          rw [Bool.not_eq_true] at hage hheld
          have hrest := fun h k e rest m hm => hlands h k e rest m (List.mem_cons_of_mem l hm)
          exact ihlevels hrest _ _ _ (hlands h k e _ l List.mem_cons_self hage hheld hP)

/-- The same, when it is known of each entry in flight which tier it has left. It is given up
because there is no colder one or it is too old for that, it is superseded, or it lands there. -/
theorem settleAll_rounds {now : Int}
    (P : Hierarchy K V → List (Level × K × Entry V) → Prop)
    (hgone : ∀ h l k e rest, (∀ next ∈ l.colder, e.expired (h.tier next).ttl now = true) →
      P h ((l, k, e) :: rest) → P (h.countEviction.finishMove k) rest)
    (hsuperseded : ∀ h l next k e rest, l.colder = some next →
      e.expired (h.tier next).ttl now = false → h.contains k now = true →
      P h ((l, k, e) :: rest) → P (h.finishMove k) rest)
    (hlands : ∀ h l next k e rest, l.colder = some next →
      e.expired (h.tier next).ttl now = false → h.contains k now = false →
      P h ((l, k, e) :: rest) →
      P (h.landed next k e) (sentFrom next ((h.tier next).put k e).evicted ++ rest))
    (h : Hierarchy K V) (l : Level) (victims : List (K × Entry V))
    (rest : List (Level × K × Entry V)) (hP : P h (sentFrom l victims ++ rest)) :
    P (h.settleAll l victims now) rest := by
  obtain ⟨levels, hlevels⟩ : ∃ levels, l.below = levels := ⟨_, rfl⟩
  unfold settleAll
  rw [hlevels]
  induction levels generalizing h l victims rest with
  | nil =>
    have hnone := Level.colder_of_below_eq_nil hlevels
    induction victims generalizing h with
    | nil => exact hP
    | cons victim victims ih =>
      obtain ⟨k, e⟩ := victim
      refine ih _ (hgone h l k e _ ?_ hP)
      rw [hnone]
      intro next hnext
      exact absurd hnext (by simp)
  | cons next colder ihlevels =>
    obtain ⟨hcolder, hbelow⟩ := Level.colder_of_below_eq_cons hlevels
    induction victims generalizing h with
    | nil => exact hP
    | cons victim victims ih =>
      obtain ⟨k, e⟩ := victim
      rw [List.foldl_cons]
      apply ih
      rw [settle_cons]
      split
      · rename_i hage
        refine hgone h l k e _ ?_ hP
        rw [hcolder]
        rintro _ ⟨⟩
        exact hage
      · rename_i hage
        split
        · rename_i hheld
          rw [Bool.not_eq_true] at hage
          exact hsuperseded h l next k e _ hcolder hage hheld hP
        · rename_i hheld
          rw [Bool.not_eq_true] at hage hheld
          exact ihlevels _ next _ _ (hlands h l next k e _ hcolder hage hheld hP) hbelow.symm

theorem settleAll_induction {now : Int}
    (P : Hierarchy K V → List (Level × K × Entry V) → Prop)
    (hgone : ∀ h l k e rest, (∀ next ∈ l.colder, e.expired (h.tier next).ttl now = true) →
      P h ((l, k, e) :: rest) → P (h.countEviction.finishMove k) rest)
    (hsuperseded : ∀ h l k e rest, h.contains k now = true → P h ((l, k, e) :: rest) →
      P (h.finishMove k) rest)
    (hlands : ∀ h l next k e rest, l.colder = some next →
      e.expired (h.tier next).ttl now = false → h.contains k now = false →
      P h ((l, k, e) :: rest) →
      P (h.landed next k e) (sentFrom next ((h.tier next).put k e).evicted ++ rest))
    (h : Hierarchy K V) (l : Level) (victims : List (K × Entry V))
    (rest : List (Level × K × Entry V)) (hP : P h (sentFrom l victims ++ rest)) :
    P (h.settleAll l victims now) rest :=
  settleAll_rounds P hgone (fun h l _ k e rest _ _ => hsuperseded h l k e rest) hlands h l victims
    rest hP

/-- Settling reaches only the levels it is given. -/
theorem tier_foldl_settle_of_not_mem {now : Int} {levels : List Level} {m : Level}
    (hm : m ∉ levels) (h : Hierarchy K V) (victims : List (K × Entry V)) :
    (victims.foldl (settle now levels) h).tier m = h.tier m := by
  induction levels generalizing h victims with
  | nil =>
    induction victims generalizing h with
    | nil => rfl
    | cons victim victims ih => exact ih _
  | cons l colder ihlevels =>
    rw [List.mem_cons, not_or] at hm
    induction victims generalizing h with
    | nil => rfl
    | cons victim victims ih =>
      obtain ⟨k, e⟩ := victim
      rw [List.foldl_cons, ih, settle_cons]
      split
      · rfl
      · split
        · rfl
        · rw [ihlevels hm.2, tier_landed, if_neg hm.1]

end Hierarchy

end TieredCache
