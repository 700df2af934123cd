import Mathlib.Data.List.Basic
import TieredCache.Exposition
import TieredCache.Proofs.Scanning

/-!
# The last snapshot is what is shown

Statistics set every gauge that a text shows, so nothing of what was set before is left in it. The
samples are read off the text again: a line that begins with the name of a family, up to a blank or
a brace, is a sample of that family.
-/

namespace TieredCache

/-! ### Values and their texts -/

namespace Decimal

theorem newLine_not_mem_toDigits (n : Nat) : '\n' ∉ Nat.toDigits 10 n := fun h =>
  absurd (isDigit_of_mem_toDigits h) (by decide)

theorem newLine_not_mem_positionalText {digits : List Char} (hdigits : '\n' ∉ digits)
    (wholeFraction : Bool) (k : Int) : '\n' ∉ positionalText wholeFraction digits k := by
  have htake (n : Nat) : '\n' ∉ digits.take n := fun h => hdigits (List.mem_of_mem_take h)
  have hdrop (n : Nat) : '\n' ∉ digits.drop n := fun h => hdigits (List.mem_of_mem_drop h)
  unfold positionalText
  split
  · cases wholeFraction <;> simp [hdigits]
  · split
    · simp [htake, hdrop]
    · simp [hdigits]

theorem newLine_not_mem_plainText (x : Float) : '\n' ∉ (plainText x).toList := by
  unfold plainText
  split
  · decide
  · split <;> decide
  · rename_i negative magnitude _
    have hbody : ∀ b : Binary, '\n' ∉ plain.magnitude (shortest plain.tie b) := fun b =>
      newLine_not_mem_positionalText (newLine_not_mem_toDigits _) _ _
    unfold Layout.finite
    rw [String.toList_ofList, List.mem_append, not_or]
    constructor
    · cases negative <;> decide
    · cases magnitude with
      | none => decide
      | some b => exact hbody b

end Decimal

/-- The value that shows a count. It stops growing at the largest signed number of 64 bits. -/
def saturated (n : Nat) : Float :=
  Float.ofNat (min n (Nat.pow 2 63 - 1))

theorem Reading.text_count (n : Nat) : (count n).text = Decimal.plainText (saturated n) := rfl

theorem Reading.text_rate (x : Float) : (rate x).text = Decimal.plainText x := rfl

/-- A sample: the tier that it is of, unless it is of all together, and the value it carries. -/
structure Sample where
  tier : Option Level
  value : Float

namespace Sample

/-- The samples of the tiers, in the order of the names of these. -/
def ofTiers (values : PerLevel Float) : List Sample :=
  [⟨some .cold, values.cold⟩, ⟨some .hot, values.hot⟩, ⟨some .warm, values.warm⟩]

/-- The line of a sample. -/
def line (f : Family) (p : Sample) : String :=
  match p.tier with
  | none => f.name ++ " " ++ Decimal.plainText p.value
  | some l => f.name ++ "\x7btier=\"" ++ l.name ++ "\"\x7d " ++ Decimal.plainText p.value

end Sample

/-- The samples of a family that show some statistics: one, or one of each tier. -/
def Family.samples (s : Statistics) : Family → List Sample
  | .demotions => [⟨none, saturated s.demotions⟩]
  | .evictions => [⟨none, saturated s.evictions⟩]
  | .expirations => [⟨none, saturated s.expirations⟩]
  | .hits => Sample.ofTiers (s.hits.map saturated)
  | .misses => [⟨none, saturated s.misses⟩]
  | .prefetched => [⟨none, saturated s.prefetched⟩]
  | .promotions => [⟨none, saturated s.promotions⟩]
  | .requests => [⟨none, saturated s.totalRequests⟩]
  | .tierCapacity => Sample.ofTiers (s.capacities.map saturated)
  | .tierHitRate => Sample.ofTiers s.hitRates
  | .tierSize => Sample.ofTiers (s.sizes.map saturated)

namespace Exposition

/-! ### What an observation leaves of earlier ones -/

theorem get?_setAll_of_not_mem (x : Exposition) {gauge : Family × Option Level}
    {readings : List ((Family × Option Level) × Reading)} (h : gauge ∉ readings.map Prod.fst) :
    (x.setAll readings).gauges.get? gauge = x.gauges.get? gauge := by
  induction readings generalizing x with
  | nil => rfl
  | cons r rest ih =>
    rw [List.map_cons, List.mem_cons, not_or] at h
    exact (ih (x.set r.1 r.2) h.2).trans (Store.get?_insert_of_ne _ _ h.1)

theorem get?_setAll_of_mem (x : Exposition) {gauge : Family × Option Level} {r : Reading}
    {readings : List ((Family × Option Level) × Reading)}
    (hnodup : (readings.map Prod.fst).Nodup) (h : (gauge, r) ∈ readings) :
    (x.setAll readings).gauges.get? gauge = some r := by
  induction readings generalizing x with
  | nil => exact absurd h List.not_mem_nil
  | cons first rest ih =>
    rw [List.map_cons, List.nodup_cons] at hnodup
    rcases List.mem_cons.1 h with rfl | h
    · exact (get?_setAll_of_not_mem (x.set gauge r) hnodup.1).trans (Store.get?_insert_self _ _ _)
    · exact ih (x.set first.1 first.2) hnodup.2 h

theorem nodup_map_fst_readings (s : Statistics) : ((readings s).map Prod.fst).Nodup := by
  -- Which gauges are set does not depend on the statistics.
  change ((readings {}).map Prod.fst).Nodup
  decide

theorem mem_readings_of_tier {s : Statistics} {f : Family} {l : Level} {r : Reading}
    (h : ((f, some l), r) ∈ [((.hits, some l), .count (s.hits.get l)),
      ((.tierSize, some l), .count (s.sizes.get l)),
      ((.tierCapacity, some l), .count (s.capacities.get l)),
      ((.tierHitRate, some l), .rate (s.hitRates.get l))]) :
    ((f, some l), r) ∈ readings s :=
  List.mem_append_right _ (List.mem_flatMap.2 ⟨l, Level.mem_all l, h⟩)

theorem sampleLine_eq (f : Family) {label : Option Level} {r : Reading} {p : Sample}
    (htier : p.tier = label) (htext : r.text = Decimal.plainText p.value) :
    sampleLine f label r = p.line f ++ "\n" := by
  obtain ⟨tier, value⟩ := p
  obtain rfl := htier
  cases tier with
  | none => simp [sampleLine, Sample.line, String.append_assoc, htext]
  | some l => simp [sampleLine, Sample.line, String.append_assoc, htext]

/-- The sample of a family shows the value that an observation sets its gauge to. -/
theorem exists_reading (s : Statistics) (f : Family) {p : Sample} (hp : p ∈ f.samples s) :
    ∃ r, ((f, p.tier), r) ∈ readings s ∧ r.text = Decimal.plainText p.value := by
  have halone {n : Nat} (hn : ((f, none), .count n) ∈ readings s)
      (hp : p ∈ [⟨none, saturated n⟩]) :
      ∃ r, ((f, p.tier), r) ∈ readings s ∧ r.text = Decimal.plainText p.value := by
    obtain rfl := List.mem_singleton.1 hp
    exact ⟨_, hn, Reading.text_count n⟩
  have htiers {values : PerLevel Float} (reading : Level → Reading)
      (htext : ∀ l, (reading l).text = Decimal.plainText (values.get l))
      (hr : ∀ l, ((f, some l), reading l) ∈ readings s) (hp : p ∈ Sample.ofTiers values) :
      ∃ r, ((f, p.tier), r) ∈ readings s ∧ r.text = Decimal.plainText p.value := by
    simp only [Sample.ofTiers, List.mem_cons, List.not_mem_nil, or_false] at hp
    rcases hp with rfl | rfl | rfl
    · exact ⟨_, hr .cold, htext .cold⟩
    · exact ⟨_, hr .hot, htext .hot⟩
    · exact ⟨_, hr .warm, htext .warm⟩
  have hcounts (field : PerLevel Nat) (hr : ∀ l, ((f, some l), .count (field.get l)) ∈ readings s)
      (hp : p ∈ Sample.ofTiers (field.map saturated)) :
      ∃ r, ((f, p.tier), r) ∈ readings s ∧ r.text = Decimal.plainText p.value := by
    refine htiers _ (fun l => ?_) hr hp
    rw [PerLevel.get_map, Reading.text_count]
  cases f with
  | hits => exact hcounts s.hits (fun l => mem_readings_of_tier (by simp)) hp
  | tierSize => exact hcounts s.sizes (fun l => mem_readings_of_tier (by simp)) hp
  | tierCapacity => exact hcounts s.capacities (fun l => mem_readings_of_tier (by simp)) hp
  | tierHitRate =>
    exact htiers _ (fun l => Reading.text_rate _) (fun l => mem_readings_of_tier (by simp)) hp
  | demotions => exact halone (by simp [readings]) hp
  | evictions => exact halone (by simp [readings]) hp
  | expirations => exact halone (by simp [readings]) hp
  | misses => exact halone (by simp [readings]) hp
  | prefetched => exact halone (by simp [readings]) hp
  | promotions => exact halone (by simp [readings]) hp
  | requests => exact halone (by simp [readings]) hp

/-- There is one sample of a family, or one of each tier. -/
theorem map_tier_samples (s : Statistics) (f : Family) :
    (f.samples s).map Sample.tier = f.labels := by
  cases f <;> rfl

theorem sampleLines_observe (x : Exposition) (s : Statistics) (f : Family) :
    (x.observe s).sampleLines f = (f.samples s).map fun p => p.line f ++ "\n" := by
  rw [sampleLines, ← map_tier_samples s f, List.filterMap_map, ← List.filterMap_eq_map]
  apply List.filterMap_congr
  intro p hp
  obtain ⟨r, hr, htext⟩ := exists_reading s f hp
  have hget := get?_setAll_of_mem x (nodup_map_fst_readings s) hr
  rw [Function.comp_apply, observe, hget, Option.map_some, sampleLine_eq f rfl htext]
  rfl

end Exposition

/-! ### Lines -/

/-- The lines of a text. -/
def linesOf (text : String) : List String :=
  (text.toList.splitOn '\n').map String.ofList

/-- Behind the last line break there is an empty piece. -/
theorem linesOf_join {lines : List String} (h : ∀ line ∈ lines, '\n' ∉ line.toList) :
    linesOf (String.join (lines.map (· ++ "\n"))) = lines ++ [""] := by
  induction lines with
  | nil => rfl
  | cons line rest ih =>
    have hline := h line List.mem_cons_self
    have hrest := ih fun l hl => h l (List.mem_cons_of_mem line hl)
    have htext : (String.join ((line :: rest).map (· ++ "\n"))).toList =
        line.toList ++ '\n' :: (String.join (rest.map (· ++ "\n"))).toList := by
      simp [String.toList_append]
    rw [linesOf, htext, List.splitOn_append_cons_self_of_not_mem hline, List.map_cons,
      String.ofList_toList, ← linesOf, hrest, List.cons_append]

namespace Family

/-- The lines of a family that has been set: what it is, and its samples. -/
def lines (s : Statistics) (f : Family) : List String :=
  ["# HELP " ++ f.name ++ " " ++ f.help, "# TYPE " ++ f.name ++ " gauge"] ++
    (f.samples s).map (Sample.line f)

/-- The name in front of a line. -/
def nameOf (line : String) : List Char :=
  line.toList.takeWhile fun c => c ≠ ' ' && c ≠ '\x7b'

theorem name_injective {f g : Family} (h : f.name = g.name) : f = g := by
  have hfind (f : Family) : all.find? (fun g => g.name = f.name) = some f := by
    cases f <;> rfl
  have hf := hfind f
  rw [h, hfind g] at hf
  exact (Option.some.inj hf).symm

theorem name_chars (f : Family) :
    ∀ c ∈ f.name.toList, c ≠ '\n' ∧ (c ≠ ' ' && c ≠ '\x7b') = true := by
  have hall : (f.name.toList.all fun c => c ≠ '\n' && (c ≠ ' ' && c ≠ '\x7b')) = true := by
    cases f <;> decide +kernel
  intro c hc
  have hchar := List.all_eq_true.1 hall c hc
  rwa [Bool.and_eq_true, decide_eq_true_iff] at hchar

theorem nameOf_line (f : Family) (p : Sample) : nameOf (p.line f) = f.name.toList := by
  have hname := fun c hc => (f.name_chars c hc).2
  obtain ⟨tier, value⟩ := p
  cases tier with
  | none =>
    rw [nameOf, Sample.line, String.append_assoc, String.toList_append, String.toList_append]
    exact takeWhile_append_of_stop hname (by rintro c ⟨⟩; decide)
  | some l =>
    rw [nameOf, Sample.line]
    simp only [String.append_assoc]
    rw [String.toList_append, String.toList_append]
    exact takeWhile_append_of_stop hname (by rintro c ⟨⟩; decide)

theorem newLine_not_mem_name (f : Family) : '\n' ∉ f.name.toList := fun h =>
  (f.name_chars _ h).1 rfl

theorem newLine_not_mem_help (f : Family) : '\n' ∉ f.help.toList := by
  cases f <;> decide +kernel

theorem newLine_not_mem_line (f : Family) (p : Sample) : '\n' ∉ (p.line f).toList := by
  have hname := f.newLine_not_mem_name
  obtain ⟨tier, value⟩ := p
  have hvalue := Decimal.newLine_not_mem_plainText value
  cases tier with
  | none => simp [Sample.line, String.toList_append, hname, hvalue]
  | some l =>
    have hlevel : '\n' ∉ l.name.toList := by cases l <;> decide +kernel
    simp [Sample.line, String.toList_append, hname, hlevel, hvalue]

theorem newLine_not_mem_lines (s : Statistics) (f : Family) :
    ∀ line ∈ f.lines s, '\n' ∉ line.toList := by
  have hname := f.newLine_not_mem_name
  have hhelp := f.newLine_not_mem_help
  intro line hline
  rcases List.mem_append.1 hline with hline | hline
  · simp only [List.mem_cons, List.not_mem_nil, or_false] at hline
    rcases hline with rfl | rfl
    · simp [String.toList_append, hname, hhelp]
    · simp [String.toList_append, hname]
  · obtain ⟨p, -, rfl⟩ := List.mem_map.1 hline
    exact f.newLine_not_mem_line p

/-- The lines of a family that begin with a name are its samples, if the name is its own. -/
theorem filter_lines (s : Statistics) (f g : Family) :
    (g.lines s).filter (fun line => nameOf line = f.name.toList) =
      if g = f then (f.samples s).map (Sample.line f) else [] := by
  have hheader : ["# HELP " ++ g.name ++ " " ++ g.help, "# TYPE " ++ g.name ++ " gauge"].filter
      (fun line => nameOf line = f.name.toList) = [] := by
    have hnot : ∀ f : Family, ['#'] ≠ f.name.toList := by intro f; cases f <;> decide +kernel
    simp [nameOf, String.toList_append, hnot f]
  have hsamples : ∀ line ∈ (g.samples s).map (Sample.line g), nameOf line = g.name.toList := by
    intro line hline
    obtain ⟨p, -, rfl⟩ := List.mem_map.1 hline
    exact g.nameOf_line p
  rw [lines, List.filter_append, hheader, List.nil_append]
  by_cases h : g = f
  · subst h
    rw [if_pos rfl]
    exact List.filter_eq_self.2 fun line hline => decide_eq_true (hsamples line hline)
  · rw [if_neg h]
    refine List.filter_eq_nil_iff.2 fun line hline => ?_
    rw [hsamples line hline, decide_eq_true_iff]
    exact fun hname => h (name_injective (String.toList_inj.1 hname))

theorem filter_flatMap_lines (s : Statistics) (f : Family) :
    (all.flatMap (lines s)).filter (fun line => nameOf line = f.name.toList) =
      (f.samples s).map (Sample.line f) := by
  simp only [List.filter_flatMap, filter_lines]
  cases f <;> simp [all]

end Family

namespace Exposition

/-! ### The whole text -/

theorem samples_ne_nil (s : Statistics) (f : Family) : f.samples s ≠ [] := by
  intro h
  have hlabels := map_tier_samples s f
  rw [h] at hlabels
  cases f <;> cases hlabels

theorem familyText_observe (x : Exposition) (s : Statistics) (f : Family) :
    (x.observe s).familyText f = String.join ((f.lines s).map (· ++ "\n")) := by
  rw [familyText, sampleLines_observe]
  obtain ⟨p, rest, hsamples⟩ := List.exists_cons_of_ne_nil (samples_ne_nil s f)
  rw [Family.lines, hsamples]
  simp only [List.cons_append, List.nil_append, List.map_cons, List.map_map, Function.comp_def,
    String.join_cons, String.append_assoc]
  rfl

theorem render_observe (x : Exposition) (s : Statistics) :
    (x.observe s).render = String.join ((Family.all.flatMap (Family.lines s)).map (· ++ "\n")) := by
  rw [render, funext fun f => x.familyText_observe s f]
  induction Family.all with
  | nil => rfl
  | cons f rest ih => simp [ih]

/-- The samples of a family that a text shows: the lines that begin with its name. -/
def samplesIn (text : String) (f : Family) : List String :=
  (linesOf text).filter fun line => Family.nameOf line = f.name.toList

theorem samplesIn_render_observe (x : Exposition) (s : Statistics) (f : Family) :
    samplesIn (x.observe s).render f = (f.samples s).map (Sample.line f) := by
  have hlines : ∀ line ∈ Family.all.flatMap (Family.lines s), '\n' ∉ line.toList := by
    intro line hline
    obtain ⟨g, -, hline⟩ := List.mem_flatMap.1 hline
    exact g.newLine_not_mem_lines s line hline
  have hlast : [""].filter (fun line => Family.nameOf line = f.name.toList) = [] := by
    cases f <;> decide +kernel
  rw [samplesIn, render_observe, linesOf_join hlines, List.filter_append, hlast, List.append_nil,
    Family.filter_flatMap_lines]

/-! ### Runs -/

/-- What is done with an exposition. -/
inductive Use where
  | observe (s : Statistics)
  | render

/-- The statistics that a use sets the gauges from. -/
def Use.snapshot? : Use → Option Statistics
  | .observe s => some s
  | .render => none

/-- The statistics that were observed last. -/
def lastSnapshot (uses : List Use) : Option Statistics :=
  (uses.filterMap Use.snapshot?).getLast?

/-- One use: the text that it returns, if any, and what it leaves. -/
def use (x : Exposition) : Use → Option String × Exposition
  | .observe s => (none, x.observe s)
  | .render => (some x.render, x)

/-- Uses one after another: the texts that are returned, and what is left. -/
def useAll (x : Exposition) : List Use → List String × Exposition
  | [] => ([], x)
  | u :: rest =>
    let (text, y) := x.use u
    let (texts, z) := y.useAll rest
    (text.toList ++ texts, z)

theorem useAll_append (x : Exposition) (before after : List Use) :
    x.useAll (before ++ after) =
      ((x.useAll before).1 ++ ((x.useAll before).2.useAll after).1,
        ((x.useAll before).2.useAll after).2) := by
  induction before generalizing x with
  | nil => rfl
  | cons u rest ih => simp [useAll, ih]

/-- Texts that are returned leave no trace. -/
theorem useAll_snd (x : Exposition) (uses : List Use) :
    (x.useAll uses).2 = (uses.filterMap Use.snapshot?).foldl observe x := by
  induction uses generalizing x with
  | nil => rfl
  | cons u rest ih => cases u <;> exact ih _

theorem exists_eq_observe {x : Exposition} {uses : List Use} {s : Statistics}
    (h : lastSnapshot uses = some s) : ∃ y : Exposition, (x.useAll uses).2 = y.observe s := by
  obtain ⟨earlier, hsnapshots⟩ := List.getLast?_eq_some_iff.1 h
  refine ⟨earlier.foldl observe x, ?_⟩
  rw [useAll_snd, hsnapshots, List.foldl_append, List.foldl_cons, List.foldl_nil]

/-- A text shows the statistics observed last and nothing else: each family with one sample, or one
of each tier, and counts up to the largest signed number of 64 bits. A text in between changes no
later one. -/
theorem renders_last_snapshot (before after : List Use) :
    let x := (new.useAll before).2
    (∀ s, lastSnapshot before = some s →
      x.render = (new.observe s).render ∧
      ∀ f : Family,
        samplesIn x.render f = (f.samples s).map (Sample.line f) ∧
        (f.samples s).map Sample.tier =
          if f.perTier then [some .cold, some .hot, some .warm] else [none]) ∧
    (new.useAll (before ++ .render :: after)).1 =
      (new.useAll before).1 ++ x.render :: (x.useAll after).1 ∧
    (new.useAll (before ++ after)).1 = (new.useAll before).1 ++ (x.useAll after).1 := by
  intro x
  refine ⟨fun s hs => ?_, ?_, ?_⟩
  · obtain ⟨y, hy⟩ := exists_eq_observe (x := new) hs
    rw [show x = y.observe s from hy]
    refine ⟨?_, fun f => ⟨samplesIn_render_observe y s f, map_tier_samples s f⟩⟩
    rw [render_observe y, render_observe new]
  · rw [useAll_append]
    rfl
  · rw [useAll_append]

theorem renders_last_snapshot_of_two :
    let many : Statistics :=
      { totalRequests := Nat.pow 2 64 - 1, sizes := ⟨4, 5, 6⟩, hitRates := ⟨0.75, 1, 0.0625⟩ }
    let before := [.observe { totalRequests := 3, misses := 1 }, .render, .observe many]
    let text := (new.useAll before).2.render
    lastSnapshot before = some many ∧ text = (new.observe many).render ∧
      samplesIn text .requests = ["tiercache_requests_total 9223372036854776000"] ∧
      samplesIn text .misses = ["tiercache_misses_total 0"] ∧
      samplesIn text .tierSize = ["tiercache_tier_size\x7btier=\"cold\"\x7d 6",
        "tiercache_tier_size\x7btier=\"hot\"\x7d 4",
        "tiercache_tier_size\x7btier=\"warm\"\x7d 5"] ∧
      samplesIn text .tierHitRate = ["tiercache_tier_hit_rate\x7btier=\"cold\"\x7d 0.0625",
        "tiercache_tier_hit_rate\x7btier=\"hot\"\x7d 0.75",
        "tiercache_tier_hit_rate\x7btier=\"warm\"\x7d 1"] := by
  intro many before text
  obtain ⟨hlast, hsamples⟩ := (renders_last_snapshot before []).1 many rfl
  exact ⟨rfl, hlast, (hsamples .requests).1.trans (by decide +kernel),
    (hsamples .misses).1.trans (by decide +kernel),
    (hsamples .tierSize).1.trans (by decide +kernel),
    (hsamples .tierHitRate).1.trans (by decide +kernel)⟩

end Exposition

end TieredCache
