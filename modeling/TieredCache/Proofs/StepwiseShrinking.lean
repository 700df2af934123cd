import TieredCache.Proofs.KeyCopies
import TieredCache.Proofs.MoveBalance

/-!
# Shrinking in steps

A tier that is shrunk in two steps still stores some entries while the first ones settle, and one
that is shrunk at once does not. `Differs` relates two hierarchies that differ in one tier only. The
entries in flight settle alike in both, since none of their keys is stored in that tier: above the
coldest tier a key has one entry, and that is on its way.
-/

namespace TieredCache

theorem Level.mem_below_of_colder {l m next : Level} (hm : m ∈ l :: l.below)
    (hcolder : m.colder = some next) : next ∈ l.below ∧ l ≠ .cold := by
  cases l <;> cases m <;> cases next <;> first | decide | simp_all [Level.below, Level.colder]

theorem Level.below_of_colder {l next : Level} (hcolder : l.colder = some next) :
    l.below = next :: next.below := by
  rw [below_eq, hcolder]
  rfl

theorem PerLevel.set_comm {α : Type} (p : PerLevel α) {l m : Level} (hm : m ≠ l) (a b : α) :
    (p.set l a).set m b = (p.set m b).set l a := by
  cases l <;> cases m <;> first | rfl | exact absurd rfl hm

theorem PerLevel.set_set {α : Type} (p : PerLevel α) (l : Level) (a b : α) :
    (p.set l a).set l b = p.set l b := by
  cases l <;> rfl

namespace Moves

theorem startedOn_start (m : Moves) (i j : Nat) :
    (m.start i).startedOn j = m.startedOn j + if i = j then 1 else 0 := by
  rw [start, startedOn, startedOn]
  by_cases hij : i = j
  · subst hij
    rw [Store.get?_insert_self, if_pos rfl]
    rfl
  · rw [Store.get?_insert_of_ne _ _ (Ne.symm hij), if_neg hij]
    rfl

theorem startedOn_finish (m : Moves) (i j : Nat) : (m.finish i).startedOn j = m.startedOn j := by
  rw [finish]
  split <;> rfl

theorem startedOn_foldl_start {K : Type} (stripe : K → Nat) (keys : List K) (m : Moves) (i : Nat) :
    (keys.foldl (fun m k => m.start (stripe k)) m).startedOn i =
      m.startedOn i + keys.countP fun k => stripe k == i := by
  induction keys generalizing m with
  | nil => rfl
  | cons k keys ih =>
    rw [List.foldl_cons, ih, startedOn_start, List.countP_cons]
    simp only [beq_iff_eq]
    omega

end Moves

/-! ### One tier -/

namespace Tier

variable {K V : Type} [DecidableEq K] {t : Tier K V}

theorem evict_capacity (t : Tier K V) (capacity : Capacity) :
    evict { t with capacity := capacity } =
      { t.evict with tier := { t.evict.tier with capacity := capacity } } := by
  unfold evict
  cases leastRecent t.store t.recency.reverse with
  | mk victim newer => cases victim <;> rfl

theorem evictTo_capacity (bound rounds : Nat) (t : Tier K V) (capacity : Capacity) :
    evictTo bound rounds { t with capacity := capacity } =
      { evictTo bound rounds t with
        tier := { (evictTo bound rounds t).tier with capacity := capacity } } := by
  induction rounds generalizing t with
  | zero => rfl
  | succ rounds ih =>
    rw [evictTo, evictTo]
    split
    · rfl
    · rw [evict_capacity]
      simp only [ih]

theorem evictTo_of_le {bound : Nat} (h : t.recency.length ≤ bound) (rounds : Nat) :
    evictTo bound rounds t = ⟨t, [], []⟩ := by
  cases rounds with
  | zero => rfl
  | succ rounds => rw [evictTo, if_pos h]

theorem resize_of_le {capacity : Capacity} (h : t.recency.length ≤ capacity.value) :
    t.resize capacity = ⟨{ t with capacity := capacity }, [], []⟩ :=
  evictTo_of_le (t := { t with capacity := capacity }) h _

theorem Indexed.length_evict (h : t.Indexed) :
    t.evict.tier.recency.length = t.recency.length - 1 := by
  rw [← h.evict.length_ordered, h.ordered_evict.1, List.length_dropLast, h.length_ordered]

/-- Giving up entries down to a bound may stop on the way at a higher one. -/
theorem Indexed.evictTo_evictTo (h : t.Indexed) {low high : Nat} (hle : low ≤ high) (rounds : Nat)
    (hrounds : t.recency.length = rounds) :
    let first := Tier.evictTo high rounds t
    let second := Tier.evictTo low first.tier.recency.length first.tier
    Tier.evictTo low rounds t =
      ⟨second.tier, first.announced ++ second.announced, first.evicted ++ second.evicted⟩ := by
  induction rounds generalizing t with
  | zero =>
    simp only [Tier.evictTo, hrounds, List.append_nil]
  | succ rounds ih =>
    -- Above the higher bound both give up the same entry, below it the first one has ended.
    by_cases hfits : t.recency.length ≤ high
    · simp only [evictTo_of_le hfits, List.nil_append, hrounds]
    · have hover : ¬ t.recency.length ≤ low := by omega
      have hlength : t.evict.tier.recency.length = rounds := by
        rw [h.length_evict]
        omega
      have hrest := ih h.evict hlength
      simp only [Tier.evictTo, if_neg hfits, if_neg hover] at hrest ⊢
      rw [hrest]
      simp only [List.append_assoc]

theorem Indexed.resize_resize (h : t.Indexed) {few many : Capacity} (hle : few.value ≤ many.value) :
    let first := t.resize many
    let second := first.tier.resize few
    t.resize few =
      ⟨second.tier, first.announced ++ second.announced, first.evicted ++ second.evicted⟩ := by
  have hsplit := h.evictTo_evictTo hle t.recency.length rfl
  simp only [Tier.resize, evictTo_capacity] at hsplit ⊢
  simp only [hsplit]

end Tier

namespace Hierarchy

variable {K V : Type}

theorem setTier_setTier (h : Hierarchy K V) (l : Level) (t u : Tier K V) :
    (h.setTier l t).setTier l u = h.setTier l u := by
  simp only [setTier, PerLevel.set_set]

/-! ### Two hierarchies that differ in one tier -/

/-- The second hierarchy is the first one with another tier at one level, and has opened some more
moves. -/
def Differs (l : Level) (t : Tier K V) (more : Nat → Nat) (h h' : Hierarchy K V) : Prop :=
  ∃ moves : Moves, h' = { h.setTier l t with moves } ∧
    ∀ i, moves.startedOn i = h.moves.startedOn i + more i

variable {now : Int} {h h' : Hierarchy K V} {l m next : Level} {k : K} {e : Entry V}
  {rest : List (Level × K × Entry V)} {t : Tier K V} {more : Nat → Nat}

namespace Differs

theorem tier (hd : Differs l t more h h') (m : Level) :
    h'.tier m = if m = l then t else h.tier m := by
  obtain ⟨moves, rfl, -⟩ := hd
  exact tier_setTier h l m t

theorem tier_of_mem_below (hd : Differs l t more h h') (hm : m ∈ l.below) :
    h'.tier m = h.tier m := by
  rw [hd.tier, if_neg]
  rintro rfl
  exact m.not_mem_below hm

theorem finishMove (hd : Differs l t more h h') (k : K) :
    Differs l t more (h.finishMove k) (h'.finishMove k) := by
  obtain ⟨moves, rfl, hstarted⟩ := hd
  refine ⟨moves.finish (h.stripe k), rfl, fun i => ?_⟩
  rw [Moves.startedOn_finish, hstarted, Hierarchy.finishMove, Moves.startedOn_finish]

theorem countEviction (hd : Differs l t more h h') :
    Differs l t more h.countEviction h'.countEviction := by
  obtain ⟨moves, rfl, hstarted⟩ := hd
  exact ⟨moves, rfl, hstarted⟩

/-- The first of two takeovers, and both at once. -/
theorem of_takeOver (h : Hierarchy K V) (l : Level) (first second : Displacement K V)
    (evicted : List (K × Entry V)) :
    Differs l second.tier (fun i => second.announced.countP fun k => h.stripe k == i)
      (h.takeOver l first)
      (h.takeOver l ⟨second.tier, first.announced ++ second.announced, evicted⟩) := by
  rw [takeOver_eq, takeOver_eq]
  refine ⟨(first.announced ++ second.announced).foldl (fun m k => m.start (h.stripe k)) h.moves,
    ?_, fun i => ?_⟩
  · simp only [setTier, PerLevel.set_set]
  · simp only [Moves.startedOn_foldl_start, List.countP_append]
    omega

theorem takeOver {d : Displacement K V}
    (hd : Differs l d.tier (fun i => d.announced.countP fun k => h.stripe k == i) h h') :
    Differs l d.tier (fun _ => 0) (h.takeOver l d) h' := by
  obtain ⟨moves, rfl, hstarted⟩ := hd
  rw [takeOver_eq]
  refine ⟨moves, ?_, fun i => ?_⟩
  · simp only [setTier, PerLevel.set_set]
  · rw [hstarted, Moves.startedOn_foldl_start, Nat.add_zero]

variable [DecidableEq K]

theorem landed (hd : Differs l t more h h') (hnext : next ∈ l.below) (k : K) (e : Entry V) :
    Differs l t more (h.landed next k e) (h'.landed next k e) := by
  have hne : next ≠ l := by
    rintro rfl
    exact next.not_mem_below hnext
  rw [Hierarchy.landed, Hierarchy.landed, hd.tier_of_mem_below hnext]
  apply finishMove
  obtain ⟨moves, rfl, hstarted⟩ := hd
  rw [takeOver_eq, takeOver_eq]
  refine ⟨((h.tier next).put k e).announced.foldl (fun m k => m.start (h.stripe k)) moves, ?_,
    fun i => ?_⟩
  · simp only [setTier, countDemotion, PerLevel.set_comm h.tiers hne]
  · simp only [Moves.startedOn_foldl_start, countDemotion, hstarted]
    omega

/-- A key that neither of the two tiers stores is held by both hierarchies or by none. -/
theorem contains (hd : Differs l t more h h') (hleft : (h.tier l).store.get? k = none)
    (hright : t.store.get? k = none) : h'.contains k now = h.contains k now := by
  have hsame : ∀ m, (h'.tier m).contains k now = (h.tier m).contains k now := by
    intro m
    rw [hd.tier]
    by_cases hm : m = l
    · rw [if_pos hm, hm, Tier.contains, Tier.contains, Tier.find?, Tier.find?, hleft, hright]
      rfl
    · rw [if_neg hm]
  simp only [Hierarchy.contains, hsame]

end Differs

/-! ### Entries in flight, one after the other -/

variable [DecidableEq K]

/-- Settles entries in flight, each from the tier that it has left. -/
def settleFlight (now : Int) (h : Hierarchy K V) (flight : List (Level × K × Entry V)) :
    Hierarchy K V :=
  flight.foldl (fun h p => settle now p.1.below h p.2) h

theorem settleFlight_sentFrom (now : Int) (h : Hierarchy K V) (l : Level)
    (evicted : List (K × Entry V)) :
    settleFlight now h (sentFrom l evicted) = h.settleAll l evicted now := by
  rw [settleFlight, sentFrom, List.foldl_map]
  rfl

theorem settleFlight_gone (hage : ∀ next ∈ l.colder, e.expired (h.tier next).ttl now = true) :
    settleFlight now h ((l, k, e) :: rest) =
      settleFlight now (h.countEviction.finishMove k) rest := by
  have hhead : settle now l.below h (k, e) = h.countEviction.finishMove k := by
    cases hcolder : l.colder with
    | none =>
      rw [Level.below_eq, hcolder]
      rfl
    | some next =>
      rw [Level.below_of_colder hcolder, settle_cons, if_pos (hage next hcolder)]
  rw [settleFlight, List.foldl_cons, hhead]
  rfl

theorem settleFlight_superseded (hcolder : l.colder = some next)
    (hage : e.expired (h.tier next).ttl now = false) (hheld : h.contains k now = true) :
    settleFlight now h ((l, k, e) :: rest) = settleFlight now (h.finishMove k) rest := by
  rw [settleFlight, List.foldl_cons, Level.below_of_colder hcolder, settle_cons, hage, hheld]
  rfl

theorem settleFlight_lands (hcolder : l.colder = some next)
    (hage : e.expired (h.tier next).ttl now = false) (hheld : h.contains k now = false) :
    settleFlight now h ((l, k, e) :: rest) = settleFlight now (h.landed next k e)
      (sentFrom next ((h.tier next).put k e).evicted ++ rest) := by
  rw [settleFlight, List.foldl_cons, Level.below_of_colder hcolder, settle_cons, hage, hheld,
    settleFlight, List.foldl_append, sentFrom, List.foldl_map]
  rfl

/-- The two states and what is in flight, with what the second run still comes to. -/
structure InStep (ttl : Level → Nat) (now : Int) (l : Level) (source t : Tier K V)
    (more : Nat → Nat) (goal : Hierarchy K V) (h : Hierarchy K V)
    (flight : List (Level × K × Entry V)) : Prop where
  layered : Layered ttl now h flight
  tier : h.tier l = source
  below : ∀ p ∈ flight, p.1 ∈ l :: l.below
  other : ∃ h', Differs l t more h h' ∧ settleFlight now h' flight = goal

namespace InStep

variable {ttl : Level → Nat} {source : Tier K V} {goal : Hierarchy K V}

theorem gone (hs : InStep ttl now l source t more goal h ((m, k, e) :: rest))
    (hage : ∀ next ∈ m.colder, e.expired (h.tier next).ttl now = true) :
    InStep ttl now l source t more goal (h.countEviction.finishMove k) rest := by
  obtain ⟨h', hd, hgoal⟩ := hs.other
  refine ⟨(layered_traced ttl now).gone h m k e rest hage hs.layered,
    hs.tier, fun p hp => hs.below p (List.mem_cons_of_mem _ hp), _,
    hd.countEviction.finishMove k, ?_⟩
  rw [← hgoal, settleFlight_gone]
  intro next hnext
  rw [hd.tier_of_mem_below (Level.mem_below_of_colder (hs.below _ List.mem_cons_self) hnext).1]
  exact hage next hnext

/-- Both hierarchies hold the key in flight, or none of them does. -/
theorem contains (hs : InStep ttl now l source t more goal h ((m, k, e) :: rest))
    (hwithin : t.Within source) (hcolder : m.colder = some next) (hd : Differs l t more h h') :
    h'.contains k now = h.contains k now := by
  obtain ⟨-, hl⟩ := Level.mem_below_of_colder (hs.below _ List.mem_cons_self) hcolder
  -- The tier in which they differ is above the coldest one, so no copy of the key is left there.
  have hnone := hs.layered.not_stored List.mem_cons_self (Level.ne_cold_of_colder hcolder) hl
  apply hd.contains hnone
  cases hstored : t.store.get? k with
  | none => rfl
  | some d =>
    rw [hs.tier, hwithin.stored k d hstored] at hnone
    exact absurd hnone (by simp)

theorem superseded (hs : InStep ttl now l source t more goal h ((m, k, e) :: rest))
    (hwithin : t.Within source) (hcolder : m.colder = some next)
    (hage : e.expired (h.tier next).ttl now = false) (hheld : h.contains k now = true) :
    InStep ttl now l source t more goal (h.finishMove k) rest := by
  obtain ⟨h', hd, hgoal⟩ := hs.other
  refine ⟨(layered_traced ttl now).superseded h m k e rest hheld hs.layered,
    hs.tier, fun p hp => hs.below p (List.mem_cons_of_mem _ hp), _, hd.finishMove k, ?_⟩
  have hnext := (Level.mem_below_of_colder (hs.below _ List.mem_cons_self) hcolder).1
  rw [← hgoal, settleFlight_superseded hcolder]
  · rw [hd.tier_of_mem_below hnext, hage]
  · rw [hs.contains hwithin hcolder hd, hheld]

theorem lands (hs : InStep ttl now l source t more goal h ((m, k, e) :: rest))
    (hwithin : t.Within source) (hcolder : m.colder = some next)
    (hage : e.expired (h.tier next).ttl now = false) (hheld : h.contains k now = false) :
    InStep ttl now l source t more goal (h.landed next k e)
      (sentFrom next ((h.tier next).put k e).evicted ++ rest) := by
  obtain ⟨h', hd, hgoal⟩ := hs.other
  have hnext := (Level.mem_below_of_colder (hs.below _ List.mem_cons_self) hcolder).1
  refine ⟨(layered_traced ttl now).lands h m next k e rest hcolder hage hheld
    hs.layered, ?_, ?_, _, hd.landed hnext k e, ?_⟩
  · rw [tier_landed, if_neg, hs.tier]
    rintro rfl
    exact l.not_mem_below hnext
  · intro p hp
    rcases List.mem_append.1 hp with hp | hp
    · obtain ⟨q, -, rfl⟩ := List.mem_map.1 hp
      exact List.mem_cons_of_mem _ hnext
    · exact hs.below p (List.mem_cons_of_mem _ hp)
  · rw [← hgoal, settleFlight_lands hcolder, hd.tier_of_mem_below hnext]
    · rw [hd.tier_of_mem_below hnext, hage]
    · rw [hs.contains hwithin hcolder hd, hheld]

end InStep

/-- Entries that have left the tier settle alike in two hierarchies that differ there only. -/
theorem Differs.settleAll {ttl : Level → Nat} {evicted : List (K × Entry V)}
    (hd : Differs l t more h h') (hlayered : Layered ttl now h (sentFrom l evicted))
    (hwithin : t.Within (h.tier l)) :
    Differs l t more (h.settleAll l evicted now) (h'.settleAll l evicted now) := by
  have hstart : InStep ttl now l (h.tier l) t more (h'.settleAll l evicted now) h
      (sentFrom l evicted) := by
    refine ⟨hlayered, rfl, ?_, h', hd, settleFlight_sentFrom now h' l evicted⟩
    intro p hp
    obtain ⟨q, -, rfl⟩ := List.mem_map.1 hp
    exact List.mem_cons_self
  rw [← List.append_nil (sentFrom l evicted)] at hstart
  have hend := settleAll_rounds (InStep ttl now l (h.tier l) t more (h'.settleAll l evicted now))
    (fun g m k e rest hage hs => hs.gone hage)
    (fun g m next k e rest hcolder hage hheld hs => hs.superseded hwithin hcolder hage hheld)
    (fun g m next k e rest hcolder hage hheld hs => hs.lands hwithin hcolder hage hheld)
    h l evicted [] hstart
  obtain ⟨g', hg', hgoal⟩ := hend.other
  rw [← hgoal]
  exact hg'

/-! ### Resizing -/

theorem stripe_settleAll (h : Hierarchy K V) (l : Level) (victims : List (K × Entry V))
    (now : Int) : (h.settleAll l victims now).stripe = h.stripe := by
  refine settleAll_induction (fun h' _ => h'.stripe = h.stripe) ?_ ?_ ?_ h l victims [] rfl
  · exact fun h' l k e rest _ hh => hh
  · exact fun h' l k e rest _ hh => hh
  · intro h' l next k e rest _ _ _ hh
    rw [landed, takeOver_eq]
    exact hh

theorem tier_resizeTier_self (h : Hierarchy K V) (l : Level) (capacity : Capacity) (now : Int) :
    (h.resizeTier l capacity now).2.tier l = ((h.tier l).resize capacity).tier := by
  refine (tier_foldl_settle_of_not_mem l.not_mem_below _ _).trans ?_
  rw [tier_takeOver, if_pos rfl]

/-- A tier that is shrunk in two steps ends where it does at once, and so does what has left it. -/
theorem resizeTier_resizeTier {ttl : Level → Nat} (hlayered : Layered ttl now h [])
    (hindexed : (h.tier l).Indexed) {few many : Capacity} (hle : few.value ≤ many.value) :
    let first := h.resizeTier l many now
    let second := first.2.resizeTier l few now
    let direct := h.resizeTier l few now
    Differs l (second.2.tier l) (fun _ => 0) second.2 direct.2 ∧ first.1 + second.1 = direct.1 := by
  intro first second direct
  let one := (h.tier l).resize many
  let other := one.tier.resize few
  have hsplit : (h.tier l).resize few =
      ⟨other.tier, one.announced ++ other.announced, one.evicted ++ other.evicted⟩ :=
    hindexed.resize_resize hle
  have hself : first.2.tier l = one.tier := h.tier_resizeTier_self l many now
  have hstripe : first.2.stripe = h.stripe := by
    refine (stripe_settleAll _ l _ now).trans ?_
    rw [takeOver_eq]
    rfl
  have hsecond : second.2 = (first.2.takeOver l other).settleAll l other.evicted now := by
    simp only [second, resizeTier, hself, other]
  have hdirect : direct.2 = ((h.takeOver l ((h.tier l).resize few)).settleAll l one.evicted
      now).settleAll l other.evicted now := by
    simp only [settleAll]
    rw [← List.foldl_append]
    simp only [direct, resizeTier, settleAll, hsplit]
  have hfirst : Layered ttl now first.2 [] :=
    (layered_traced ttl now).settleAll _ l _ (hlayered.resized l many)
  -- The second batch is in flight only after the first one has settled, or together with it.
  have hstart : Differs l other.tier (fun i => other.announced.countP fun k => h.stripe k == i)
      (h.takeOver l one) (h.takeOver l ((h.tier l).resize few)) := by
    rw [hsplit]
    exact .of_takeOver h l one other _
  have hmiddle := hstart.settleAll (hlayered.resized l many) (by
    rw [tier_takeOver, if_pos rfl]
    exact one.tier.resize_within few)
  rw [← hstripe] at hmiddle
  have hend := (Differs.takeOver hmiddle).settleAll
    (by
      have hresized := hfirst.resized l few
      rwa [hself] at hresized)
    (by
      rw [tier_takeOver, if_pos rfl]
      exact .refl _)
  refine ⟨?_, ?_⟩
  · have hlast : second.2.tier l = other.tier := by
      rw [tier_resizeTier_self, hself]
    rw [hlast, hsecond, hdirect]
    exact hend
  · have hcount : second.1 = other.evicted.length := by
      simp only [second, resizeTier, hself, other]
    rw [hcount]
    simp only [first, direct, resizeTier, hsplit, List.length_append, one]

/-- A tier that has grown gives up nothing when it gets its capacity back. -/
theorem resizeTier_of_grown (hfits : (h.tier l).recency.length ≤ (h.tier l).capacity.value)
    {many : Capacity} (hle : (h.tier l).capacity.value ≤ many.value) :
    (h.resizeTier l many now).1 = 0 ∧
      (h.resizeTier l many now).2.resizeTier l (h.tier l).capacity now = (0, h) := by
  have hgrown := Tier.resize_of_le (hfits.trans hle)
  have hback : Tier.resize { h.tier l with capacity := many } (h.tier l).capacity =
      ⟨h.tier l, [], []⟩ := Tier.resize_of_le hfits
  have hresized : h.resizeTier l many now =
      (0, h.setTier l { h.tier l with capacity := many }) := by
    rw [resizeTier, hgrown]
    rfl
  refine ⟨by rw [hresized], ?_⟩
  rw [hresized, resizeTier, tier_setTier_self, hback]
  simp only [takeOver, List.foldl_nil, setTier_setTier, setTier_tier]
  rfl

end Hierarchy

namespace Session

variable {K V : Type} [DecidableEq K]

/-- After every run a tier may be shrunk in two steps or at once: what is left is the same in all
tiers, histories and counters, as many moves were opened on each stripe and none is open, and as
many entries have left the tier. Growing a tier and giving it its capacity back changes nothing. -/
theorem shrinking_in_steps {config : Config} {stripe : K → Nat} (s : Session K V)
    (hnew : Hierarchy.new config stripe = .ok s.hierarchy) (ops : List (Operation K V))
    (l : Level) :
    let t := (s.run ops).2
    (∀ few many : Capacity, few.value ≤ many.value →
      let first := t.hierarchy.resizeTier l many t.now
      let second := first.2.resizeTier l few t.now
      let direct := t.hierarchy.resizeTier l few t.now
      second.2 = { direct.2 with moves := second.2.moves } ∧
      (∀ i, second.2.moves.stamp i = direct.2.moves.stamp i ∧ direct.2.moves.openOn i = 0) ∧
      second.2.moves.unmatched = direct.2.moves.unmatched ∧ first.1 + second.1 = direct.1) ∧
    ∀ many : Capacity, (t.hierarchy.tier l).capacity.value ≤ many.value →
      let grown := t.hierarchy.resizeTier l many t.now
      grown.1 = 0 ∧
        grown.2.resizeTier l (t.hierarchy.tier l).capacity t.now = (0, t.hierarchy) := by
  intro t
  have hconsistent := (sound_run hnew ops).consistent l
  refine ⟨fun few many hle => ?_, fun many hle => ?_⟩
  · intro first second direct
    obtain ⟨⟨moves, hsame, hstarted⟩, hcount⟩ := Hierarchy.resizeTier_resizeTier
      (layered_run hnew ops) hconsistent.indexed hle
    have hkept := (Hierarchy.balanced_keptByWrites (K := K) (V := V) t.now).toKept
    have hdirect : direct.2.Balanced [] := hkept.resizeTier _ l few (balanced_run hnew ops)
    have hsecond : second.2.Balanced [] :=
      hkept.resizeTier _ l few (hkept.resizeTier _ l many (balanced_run hnew ops))
    rw [Hierarchy.setTier_tier] at hsame
    have hmoves : direct.2.moves = moves := congrArg Hierarchy.moves hsame
    refine ⟨?_, fun i => ⟨?_, hdirect.openOn i⟩, ?_, hcount⟩
    · exact congrArg (fun h => { h with moves := second.2.moves }) hsame.symm
    · have hstarted : direct.2.moves.startedOn i = second.2.moves.startedOn i := by
        rw [hmoves]
        exact hstarted i
      rw [Moves.stamp, Moves.stamp, hsecond.openOn, hdirect.openOn, hstarted]
      rfl
    · rw [hsecond.unmatched, hdirect.unmatched]
  · exact Hierarchy.resizeTier_of_grown hconsistent.fits hle

/-- The first of two entries pushes one out of the warm tier when the second one follows it. -/
theorem shrinking_in_steps_of_three :
    let h := (narrowStart.run
      [.resizeTier .hot ⟨3, by decide⟩, .put 1 10, .put 2 20, .put 3 30]).2.hierarchy
    let first := h.resizeTier .hot ⟨2, by decide⟩ 0
    let second := first.2.resizeTier .hot ⟨1, by decide⟩ 0
    let direct := h.resizeTier .hot ⟨1, by decide⟩ 0
    Hierarchy.new narrow (fun _ => 0) = .ok narrowStart.hierarchy ∧
      first.1 = 1 ∧ direct.1 = 2 ∧ direct.2.counters.demotions = 3 ∧
      (direct.2.tier .warm).recency = [2] ∧ (direct.2.tier .cold).recency = [1] ∧
      second.2 = { direct.2 with moves := second.2.moves } ∧ first.1 + second.1 = direct.1 := by
  intro h first second direct
  have hnew : Hierarchy.new narrow (fun _ => 0) = .ok narrowStart.hierarchy := rfl
  obtain ⟨hsame, -, -, hcount⟩ := (shrinking_in_steps narrowStart hnew
    [.resizeTier .hot ⟨3, by decide⟩, .put 1 10, .put 2 20, .put 3 30] .hot).1
    ⟨1, by decide⟩ ⟨2, by decide⟩ (by decide)
  exact ⟨hnew, by decide, by decide, by decide, by decide, by decide, hsame, hcount⟩

end Session

end TieredCache
