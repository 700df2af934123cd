import TieredCache.Proofs.Bookkeeping
import TieredCache.Proofs.TidyTiers
import TieredCache.Proofs.WriteEffects

/-!
# What a lookup costs the other keys

A lookup that moves its key up takes it out of the tier that served it. What the key displaces on its
way in falls no further than to the place that has become free there, so nothing leaves the coldest
tier, and another key is dropped only if it is too old for the tier that it falls to.
-/

namespace TieredCache

theorem Level.mem_below_of_isHotterThan {l m : Level} (h : l.isHotterThan m) : m ∈ l.below := by
  cases l <;> cases m <;> first | decide | exact absurd h (by decide)

theorem Level.exists_colder_of_isHotterThan {l m : Level} (h : l.isHotterThan m) :
    ∃ next, l.colder = some next := by
  cases l with
  | hot => exact ⟨.warm, rfl⟩
  | warm => exact ⟨.cold, rfl⟩
  | cold => cases m <;> exact absurd h (by decide)

theorem Tier.find?_lookup {K V : Type} [DecidableEq K] (t : Tier K V) (j k : K) (now : Int) :
    (t.lookup k now).2.find? j now = t.find? j now := by
  by_cases hj : j = k
  · subst hj
    obtain ⟨httl, hstored⟩ := Prod.mk.inj (t.view_lookup_self j now)
    rw [find?, httl, hstored, find?, Option.filter_filter]
    simp
  · exact find?_congr (t.view_lookup_of_ne hj now) now

namespace Hierarchy

variable {K V : Type} [DecidableEq K] {now : Int} {h : Hierarchy K V} {k : K}

/-! ### The course of a lookup -/

theorem find?_probe (j k : K) (now : Int) (levels : List Level) (h : Hierarchy K V) (m : Level) :
    ((probe k now levels h).2.tier m).find? j now = (h.tier m).find? j now := by
  induction levels generalizing h with
  | nil => rfl
  | cons l colder ih =>
    have hset : ((h.setTier l ((h.tier l).lookup k now).2).tier m).find? j now =
        (h.tier m).find? j now := by
      rw [tier_setTier]
      split
      · rename_i hm
        rw [Tier.find?_lookup, hm]
      · rfl
    rw [probe]
    cases hfound : (h.tier l).lookup k now with
    | mk found t =>
      rw [hfound] at hset
      cases found with
      | some e => exact hset
      | none => exact (ih _).trans hset

theorem ttl_probe (k : K) (now : Int) (levels : List Level) (h : Hierarchy K V) (m : Level) :
    ((probe k now levels h).2.tier m).ttl = (h.tier m).ttl := by
  induction levels generalizing h with
  | nil => rfl
  | cons l colder ih =>
    have hset : ((h.setTier l ((h.tier l).lookup k now).2).tier m).ttl = (h.tier m).ttl :=
      (h.within_setTier ((h.tier l).lookup_within k now) m).ttl
    rw [probe]
    cases hfound : (h.tier l).lookup k now with
    | mk found t =>
      rw [hfound] at hset
      cases found with
      | some e => exact hset
      | none => exact (ih _).trans hset

/-- A hierarchy after a tier has answered a lookup, before its key moves up. -/
def answered (h : Hierarchy K V) (k : K) (l : Level) (now : Int) : Hierarchy K V :=
  (probe k now Level.all h).2.served l k now

def countPromotion (h : Hierarchy K V) : Hierarchy K V :=
  { h with counters := { h.counters with promotions := h.counters.promotions + 1 } }

/-- The tier that a history earns when it takes in one more access. -/
def earned (h : Hierarchy K V) (k : K) (now : Int) : Level :=
  h.config.migration.placement (h.tracker.record k now).1 now

theorem promote_of_find? {source target : Level} {e : Entry V}
    (hfind : (h.tier source).find? k now = some e) :
    h.promote k source target now =
      if e.expired (h.tier target).ttl now then h else h.countPromotion.insertAt target k e now := by
  rcases h.promote_cases k source target now with ⟨hnone, -⟩ | ⟨d, hd, hcases⟩
  · rw [hfind] at hnone
    exact absurd hnone (by simp)
  · obtain rfl := Option.some.inj (hfind.symm.trans hd)
    rcases hcases with ⟨hage, hpromote⟩ | ⟨hage, -⟩
    · rw [hpromote, hage, if_pos rfl]
    · rw [promote_eq_insertAt hfind hage, hage]
      rfl

theorem find?_answered (h : Hierarchy K V) (j k : K) (l m : Level) (now : Int) :
    ((h.answered k l now).tier m).find? j now = (h.tier m).find? j now := by
  rw [← find?_probe j k now Level.all h m]
  have hserved := agree_setTier (((probe k now Level.all h).2.tier l).view_touch k j)
  exact hserved.find? m now

theorem ttl_answered (h : Hierarchy K V) (k : K) (l m : Level) (now : Int) :
    ((h.answered k l now).tier m).ttl = (h.tier m).ttl := by
  rw [← ttl_probe k now Level.all h m]
  have hserved := agree_setTier (((probe k now Level.all h).2.tier l).view_touch k k)
  exact hserved.ttl m

theorem promotions_answered (h : Hierarchy K V) (k : K) (l : Level) (now : Int) :
    (h.answered k l now).counters.promotions = h.counters.promotions :=
  congrArg (fun h => h.counters.promotions) (probe_snd_eq k now Level.all h)

theorem agree_answered {j k : K} (hj : j ≠ k) (h : Hierarchy K V) (l : Level) (now : Int) :
    Agree j (h.answered k l now) h :=
  (agree_served hj _ l now).trans (agree_probe hj now Level.all h)

theorem answered_kept {P : Hierarchy K V → List (K × Entry V) → Prop} (hP : Kept now P)
    (h : Hierarchy K V) (k : K) (l : Level) (hh : P h []) : P (h.answered k l now) [] :=
  hP.traced.served _ l k (hP.traced.probe k Level.all h hh)

theorem Sound.answered (hh : h.Sound now) (k : K) (l : Level) : (h.answered k l now).Sound now :=
  answered_kept (sound_keptByWrites now).toKept h k l hh

theorem nodup_answered (hnodup : h.contents.Nodup) (k : K) (l : Level) :
    (h.answered k l now).contents.Nodup := by
  have hle := answered_kept (contents_kept now h.contents) h k l (by simp)
  rw [Multiset.coe_nil, zero_add] at hle
  exact Multiset.nodup_of_le hle hnodup

theorem get_of_missed (hlevel : h.levelOf? k now = none) :
    h.get k now = (none, { (probe k now Level.all h).2 with
      counters := (probe k now Level.all h).2.counters.miss }) := by
  have hprobe := h.levelOf?_eq_probe k now
  rw [hlevel, eq_comm, Option.map_eq_none_iff] at hprobe
  rw [get_eq, hprobe]

/-- A lookup answers with the entry that the hottest tier holds. The key moves up if its history has
earned a hotter tier and the entry is young enough there. -/
theorem get_of_served {l : Level} (hlevel : h.levelOf? k now = some l) :
    ∃ e, (h.tier l).find? k now = some e ∧ h.get k now = (some e.value,
      if (h.earned k now).isHotterThan l ∧ e.expired (h.tier (h.earned k now)).ttl now = false then
        (h.answered k l now).countPromotion.insertAt (h.earned k now) k e now
      else h.answered k l now) := by
  have hprobe := h.levelOf?_eq_probe k now
  rw [hlevel, eq_comm, Option.map_eq_some_iff] at hprobe
  obtain ⟨⟨l', e⟩, hfound, rfl⟩ := hprobe
  have hfirst := probe_fst Level.all (by decide) k now h h fun _ _ => rfl
  rw [hfound] at hfirst
  obtain ⟨m, -, hm⟩ := List.exists_of_findSome?_eq_some hfirst.symm
  obtain ⟨d, hd, heq⟩ := Option.map_eq_some_iff.1 hm
  obtain ⟨rfl, rfl⟩ := Prod.mk.inj heq
  refine ⟨d, hd, ?_⟩
  have hconfig := congrArg Hierarchy.config (probe_snd_eq k now Level.all h)
  have htracker := congrArg Hierarchy.tracker (probe_snd_eq k now Level.all h)
  simp only at hconfig htracker
  have hpromotion : h.config.migration.promotion? (h.tracker.record k now).1 m now =
      if (h.earned k now).isHotterThan m then some (h.earned k now) else none := rfl
  have hanswered : ((h.answered k m now).tier m).find? k now = some d := by
    rw [find?_answered, hd]
  rw [get_eq, hfound]
  by_cases hhotter : (h.earned k now).isHotterThan m
  · have hserve : (probe k now Level.all h).2.serve k m now =
        (h.answered k m now).promote k m (h.earned k now) now := by
      rw [serve_eq, hconfig, htracker, hpromotion, if_pos hhotter]
      rfl
    simp only [hserve, hhotter, true_and, promote_of_find? hanswered, ttl_answered]
    cases d.expired (h.tier (h.earned k now)).ttl now <;> rfl
  · have hserve : (probe k now Level.all h).2.serve k m now = h.answered k m now := by
      rw [serve_eq, hconfig, htracker, hpromotion, if_neg hhotter]
      rfl
    simp only [hserve, hhotter, Bool.false_eq_true, if_false, false_and]

/-! ### The other keys -/

theorem hotter_of_pushedOut {h' : Hierarchy K V} {source target m : Level} {e : Entry V}
    {p : K × Entry V} (hconsistent : ∀ l, (h.tier l).Consistent)
    (hfind : (h.tier source).find? k now = some e) (hhotter : target.isHotterThan source)
    (hp : PushedOut (target :: target.below) (h.remove k) h' m p) : m.isHotterThan source := by
  by_contra hnot
  -- The way down leads through the tier that the key has left, which has room for an entry.
  have hsource := List.mem_cons_of_mem target (Level.mem_below_of_isHotterThan hhotter)
  have hnone := hp.not_stored hconsistent hsource hnot
  rw [(Tier.find?_eq_some_iff.1 hfind).1] at hnone
  exact absurd hnone (by simp)

/-- What a lookup leaves of another key. It stays in the coldest tier. An entry that was held is found
in its tier or one below, unless it has left its tier because the key of the lookup moved up, and is
too old for the next. No stored entry goes up or further down than one tier. -/
structure Keeps (h h' : Hierarchy K V) (now : Int) (j : K) : Prop where
  cold : (h.tier .cold).store.contains j → (h'.tier .cold).store.contains j
  held : ∀ l d, (h.tier l).find? j now = some d → (h'.tier l).find? j now = some d ∨
    ∃ next, l.colder = some next ∧ ((h'.tier next).find? j now = some d ∨
      (h'.tier l).store.get? j = none ∧
        h'.counters.promotions = h.counters.promotions + 1 ∧ d.expired (h.tier next).ttl now)
  oneDown : ∀ l m d, (h.tier l).store.get? j = some d → (h'.tier m).store.get? j = some d →
    m = l ∨ l.colder = some m

theorem Agree.stored {h' : Hierarchy K V} {j : K} (hagree : Agree j h h') (l : Level) :
    (h.tier l).store.get? j = (h'.tier l).store.get? j :=
  congrArg Prod.snd (hagree.tier l)

theorem keeps_of_agree {h' : Hierarchy K V} {j : K} (hnodup : h.contents.Nodup)
    (hagree : Agree j h' h) : h.Keeps h' now j where
  cold hcold := by rwa [Store.contains, hagree.stored]
  held l d hd := .inl ((hagree.find? l now).trans hd)
  oneDown l m d hl hm := by
    rw [hagree.stored] at hm
    exact .inl (level_eq_of_nodup hnodup hm hl)

/-- Only the key of a lookup is touched and counted before it moves up. -/
theorem Keeps.of_agree {between h' : Hierarchy K V} {j : K} (hkeeps : between.Keeps h' now j)
    (hagree : Agree j between h)
    (hcount : between.counters.promotions = h.counters.promotions) : h.Keeps h' now j where
  cold hcold := hkeeps.cold (by rwa [Store.contains, hagree.stored])
  held l d hd := by
    have hheld := hkeeps.held l d ((hagree.find? l now).trans hd)
    simpa only [hcount, hagree.ttl] using hheld
  oneDown l m d hl hm := hkeeps.oneDown l m d ((hagree.stored l).trans hl) hm

theorem keeps_of_promotion {source target : Level} {e : Entry V} (hh : h.Sound now)
    (hnodup : h.contents.Nodup) (hfind : (h.tier source).find? k now = some e)
    (hhotter : target.isHotterThan source) (hage : e.expired (h.tier target).ttl now = false)
    {j : K} (hj : j ≠ k) : h.Keeps (h.countPromotion.insertAt target k e now) now j := by
  have hcounted : h.countPromotion.Sound now := ⟨hh.consistent, hh.single⟩
  have hfree : ∀ {m p}, PushedOut (target :: target.below) (h.countPromotion.remove k)
      (h.countPromotion.insertAt target k e now) m p → m.isHotterThan source :=
    hotter_of_pushedOut hcounted.consistent hfind hhotter
  refine ⟨fun hcold => ?_, fun l d hd => ?_, fun l m d hl hm => ?_⟩
  · obtain ⟨d, hd⟩ := Option.isSome_iff_exists.1 hcold
    refine (stored_insertAt hcounted.consistent hage hj hd).resolve_right fun hout => ?_
    have hnone := hfree hout
    cases source <;> exact absurd hnone (by decide)
  · obtain ⟨lost, hlost⟩ := find?_insertAt (k := k) hcounted hage
    rcases hlost l j d hj hd with ⟨-, hout, hold⟩ | hfound | ⟨next, hcolder, hfound⟩
    · obtain ⟨next, hcolder⟩ := Level.exists_colder_of_isHotterThan (hfree hout)
      have hcount := congrArg Records.promotions (records_insertAt h.countPromotion target k e now)
      exact .inr ⟨next, hcolder, .inr ⟨hout.left, hcount, hold next hcolder⟩⟩
    · exact .inl hfound
    · exact .inr ⟨next, hcolder, .inl hfound⟩
  · apply level_after_insertAt (p := (j, d)) hcounted.consistent hnodup hage
    · exact (mem_others_iff hcounted.consistent).2 ⟨hj, hl⟩
    · exact (mem_others_iff (hcounted.insertAt target k e).consistent).2 ⟨hj, hm⟩

theorem get_keeps (hh : h.Sound now) (hnodup : h.contents.Nodup) {j k : K} (hj : j ≠ k) :
    h.Keeps (h.get k now).2 now j := by
  cases hlevel : h.levelOf? k now with
  | none =>
    have hprobe := agree_probe hj now Level.all h
    rw [get_of_missed hlevel]
    exact keeps_of_agree hnodup ⟨hprobe.config, hprobe.tier, hprobe.history⟩
  | some l =>
    have hagree := agree_answered hj h l now
    obtain ⟨e, hfind, hget⟩ := get_of_served hlevel
    rw [hget]
    simp only
    split
    · rename_i hmoves
      obtain ⟨hhotter, hage⟩ := hmoves
      refine (keeps_of_promotion (hh.answered k l) (nodup_answered hnodup k l) ?_ hhotter ?_
        hj).of_agree hagree (promotions_answered h k l now)
      · rw [find?_answered, hfind]
      · rw [ttl_answered, hage]
    · exact keeps_of_agree hnodup hagree

end Hierarchy

namespace Session

variable {K V : Type} [DecidableEq K]

/-- A lookup costs no other key its place. Another key that the coldest tier stores is still stored
there. An entry of another key that was held is still found, in its tier or the next colder one. The
exception is an entry that has left its tier because the key of the lookup moved up, and that is too
old for the next colder tier. No entry of another key goes up, and none goes down by more than one
tier. -/
theorem get_keeps_other_keys {config : Config} {stripe : K → Nat} (s : Session K V)
    (hnew : Hierarchy.new config stripe = .ok s.hierarchy) (ops : List (Operation K V)) {j k : K}
    (hj : j ≠ k) :
    let t := (s.run ops).2
    let h := t.hierarchy
    let h' := (h.get k t.now).2
    ((h.tier .cold).store.contains j → (h'.tier .cold).store.contains j) ∧
    (∀ l e, (h.tier l).find? j t.now = some e →
      (h'.tier l).find? j t.now = some e ∨
      ∃ next, l.colder = some next ∧
        ((h'.tier next).find? j t.now = some e ∨
          (h'.tier l).store.get? j = none ∧
            h'.counters.promotions = h.counters.promotions + 1 ∧
            e.expired (h.tier next).ttl t.now)) ∧
    ∀ l m e, (h.tier l).store.get? j = some e → (h'.tier m).store.get? j = some e →
      m = l ∨ l.colder = some m := by
  intro t h h'
  have hkeeps := Hierarchy.get_keeps (sound_run hnew ops) (nodup_contents_run hnew ops) hj
  exact ⟨hkeeps.cold, hkeeps.held, hkeeps.oneDown⟩

/-- A key moves up into a full tier, and the one that it displaces takes the place it has left. -/
theorem get_keeps_other_keys_of_two :
    let t := (narrowStart.run [.put 1 10, .put 2 20]).2
    let h' := (t.hierarchy.get 1 t.now).2
    Hierarchy.new narrow (fun _ => 0) = .ok narrowStart.hierarchy ∧ (2 : Nat) ≠ 1 ∧
      (t.hierarchy.tier .hot).find? 2 t.now = some ⟨20, 0⟩ ∧
      (h'.tier .hot).find? 1 t.now = some ⟨10, 0⟩ ∧
      ∃ next, Level.hot.colder = some next ∧ ((h'.tier next).find? 2 t.now = some ⟨20, 0⟩ ∨
        (h'.tier .hot).store.get? 2 = none ∧
          h'.counters.promotions = t.hierarchy.counters.promotions + 1 ∧
          (⟨20, 0⟩ : Entry Nat).expired (t.hierarchy.tier next).ttl t.now) := by
  have hnew : Hierarchy.new narrow (fun _ => 0) = .ok narrowStart.hierarchy := rfl
  have hother : (2 : Nat) ≠ 1 := by decide
  have hheld := (get_keeps_other_keys narrowStart hnew [.put 1 10, .put 2 20] hother).2.1
  have hdown := (hheld .hot ⟨20, 0⟩ (by decide)).resolve_left (by decide)
  exact ⟨hnew, hother, by decide, by decide, hdown⟩

end Session

end TieredCache
