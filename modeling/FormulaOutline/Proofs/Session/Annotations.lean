import FormulaOutline.Function.Builtin
import FormulaOutline.Proofs.Provider.Caching
import FormulaOutline.Proofs.Scope.Planting
import FormulaOutline.Proofs.Session.Deeds
import FormulaOutline.Proofs.Session.Publications
import FormulaOutline.Proofs.Session.Walks

/-!
# The weather of dated scopes

A call of the weather function asks for the weather of the days that scopes below it have, each day
once, and puts the report of its day on each of these scopes. Days without a report keep no other scope
from getting one.

* `does_reportDays`, `does_annotate`: what the loops of the function do, one step after the other.
* `record?_published`: what reports leave on scopes. No scope gets two of them
  (`nodup_putsOfCall`).
* `mem_dated`, `mem_putsOfCall`: which scopes below the call have dates, and which get reports.
* `does_reporting`: all that a call does once it has its arguments.
* `Annotates`: what that comes to.
* `weather_annotates`: the calls of current evaluations, in all sessions. The arguments may be waited
  for.
-/

namespace FormulaOutline

open Calendar Geo Process Relation ScopeTree

/-! ## One result of each publisher -/

variable {new : ComputationResult} {results results' : List ComputationResult}

/-- Of the results from the source of a new one the new one is there alone, and others stay. -/
theorem Puts.filter (h : Puts new results results') :
    results'.filter (·.source = new.source) = [new] ∧
      results'.filter (·.source ≠ new.source) = results.filter (·.source ≠ new.source) := by
  cases h with
  | @inPlace old before after hSame hOther =>
    have hBefore : before.filter (·.source = new.source) = [] :=
      List.filter_eq_nil_iff.mpr fun c hc => by simpa using hOther c (List.mem_append_left _ hc)
    have hAfter : after.filter (·.source = new.source) = [] :=
      List.filter_eq_nil_iff.mpr fun c hc => by simpa using hOther c (List.mem_append_right _ hc)
    simp [List.filter_append, hSame, hBefore, hAfter]
  | atEnd hOther =>
    have hNone : results.filter (·.source = new.source) = [] :=
      List.filter_eq_nil_iff.mpr fun c hc => by simpa using hOther c hc
    simp [List.filter_append, hNone]

/-! ## Days -/

namespace Functions

variable {d e : Date} {l : List Date}

theorem mem_insertDay : e ∈ insertDay d l ↔ e = d ∨ e ∈ l := by
  induction l with
  | nil => rw [insertDay, List.mem_singleton, or_iff_left List.not_mem_nil]
  | cons a rest ih =>
    rw [insertDay]
    split
    · exact List.mem_cons
    · split
      · rename_i hSame
        rw [List.mem_cons, ← hSame]
        tauto
      · rw [List.mem_cons, ih, List.mem_cons]
        tauto

/-- A day is put where it belongs. -/
theorem sorted_insertDay (h : l.Pairwise (·.dayNumber ≤ ·.dayNumber)) :
    (insertDay d l).Pairwise (·.dayNumber ≤ ·.dayNumber) := by
  induction l with
  | nil => exact List.pairwise_singleton _ _
  | cons a rest ih =>
    obtain ⟨hFirst, hRest⟩ := List.pairwise_cons.mp h
    rw [insertDay]
    split
    · rename_i hBefore
      refine List.pairwise_cons.mpr ⟨List.forall_mem_cons.mpr ⟨hBefore.le, fun b hb => ?_⟩, h⟩
      exact hBefore.le.trans (hFirst b hb)
    · rename_i hNotBefore
      split
      · exact h
      · refine List.pairwise_cons.mpr ⟨fun b hb => ?_, ih hRest⟩
        rcases mem_insertDay.mp hb with rfl | hb
        · exact not_lt.mp hNotBefore
        · exact hFirst b hb

theorem nodup_insertDay (hSorted : l.Pairwise (·.dayNumber ≤ ·.dayNumber)) (h : l.Nodup) :
    (insertDay d l).Nodup := by
  induction l with
  | nil => exact List.nodup_singleton _
  | cons a rest ih =>
    obtain ⟨hFirst, hRest⟩ := List.pairwise_cons.mp hSorted
    rw [insertDay]
    split
    · rename_i hBefore
      refine List.nodup_cons.mpr ⟨fun hd => ?_, h⟩
      rcases List.mem_cons.mp hd with rfl | hd
      · exact lt_irrefl _ hBefore
      · exact (hFirst d hd).not_gt hBefore
    · split
      · exact h
      · rename_i hOther
        rw [List.nodup_cons] at h ⊢
        exact ⟨fun ha => (mem_insertDay.mp ha).elim (fun hEq => hOther hEq.symm) h.1, ih hRest h.2⟩

/-- Days are put in order, each of them once. -/
theorem days_of (l : List Date) :
    (l.foldr insertDay []).Nodup ∧ ∀ d, d ∈ l.foldr insertDay [] ↔ d ∈ l := by
  have hSorted : ∀ l : List Date, (l.foldr insertDay []).Pairwise (·.dayNumber ≤ ·.dayNumber) := by
    intro l
    induction l with
    | nil => exact .nil
    | cons d rest ih => exact sorted_insertDay ih
  induction l with
  | nil => exact ⟨.nil, fun d => Iff.rfl⟩
  | cons d rest ih =>
    refine ⟨nodup_insertDay (hSorted rest) ih.1, fun e => ?_⟩
    rw [List.foldr_cons, mem_insertDay, ih.2, List.mem_cons]

end Functions

/-! ## Reports -/

/-- A source says the same of a day, whatever other days it has been asked for before. -/
def Source.Reports (source : WeatherSource) (m : Cache.Moment) (location : Location)
    (report : Date → Except ProviderError WeatherReport) : Prop :=
  ∀ (before : List Date) (day : Date),
    ((source.after (before.map fun d => (m, d, location))).ask m (day, location)).1 = report day

/-- Without a cache a source says of a day what its provider says. -/
theorem Source.reports_of_uncached {source : WeatherSource} (h : source.cache = none)
    (m : Cache.Moment) (location : Location) :
    source.Reports m location fun day => source.inner (day, location) := by
  have hUncached : ∀ requests, (source.after requests).cache = none := by
    intro requests
    induction requests using List.reverseRecOn with
    | nil => exact h
    | append_singleton requests r ih =>
      rw [after_append, ask, ih]
      exact ih
  intro before day
  rw [ask, hUncached]
  exact congrFun (source.inner_after _) (day, location)

theorem Directory.ask_weather {p : Directory} {source : WeatherSource} (h : p.weather = some source)
    (m : Cache.Moment) (day : Date) (location : Location) : p.ask m (.weather day location) =
      ((source.ask m (day, location)).1,
        { p with weather := some (source.ask m (day, location)).2 }) := by
  rw [Directory.ask, h]
  rfl

namespace Functions

variable {days : List Date} {f : Date → Except ProviderError Value} {day : Date}

theorem reportOf?_map (days : List Date) (f : Date → Except ProviderError Value) (day : Date) :
    reportOf? (days.map fun d => (d, f d)) day = if day ∈ days then some (f day) else none := by
  induction days with
  | nil => rfl
  | cons d rest ih =>
    by_cases hSame : d = day
    · simp [reportOf?, hSame]
    · rw [reportOf?, List.map_cons, List.find?_cons_of_neg (by simpa using hSame), ← reportOf?, ih]
      simp [Ne.symm hSame]

theorem datedScope?_eq_some_iff {t : ScopeTree} {only : Option Date} {x y : ScopeId} :
    datedScope? t only x = some (y, day) ↔
      y = x ∧ (t.typedValue? x).bind Value.asDate = some day ∧ ∀ d ∈ only, day = d := by
  have hBind : datedScope? t only x = ((t.typedValue? x).bind Value.asDate).bind fun day =>
      if only.all (· = day) then some (x, day) else none := (Option.bind_assoc _ _ _).symm
  have hAll : ∀ e, only.all (fun d => decide (d = e)) = true ↔ ∀ d ∈ only, e = d := fun e => by
    cases only <;> simp [eq_comm]
  rw [hBind, Option.bind_eq_some_iff]
  constructor
  · rintro ⟨e, hDay, hSome⟩
    split at hSome
    · rename_i h
      cases hSome
      exact ⟨rfl, hDay, (hAll day).mp h⟩
    · cases hSome
  · rintro ⟨rfl, hDay, h⟩
    exact ⟨day, hDay, if_pos ((hAll day).mpr h)⟩

end Functions

namespace Session

open Formula Functions ProviderKind

variable {s s' : Session} {run : Publisher} {location : Location} {date only : Option Date}
  {report : Date → Except ProviderError WeatherReport} {source : WeatherSource}

/-! ## Asking -/

/-- The session after the weather of days has been asked for. -/
def asked (s : Session) (location : Location) (days : List Date) : Session :=
  { s with
    providers := days.foldl (fun p day => (p.ask s.moment (.weather day location)).2) s.providers }

theorem asked_append (s : Session) (location : Location) (days days' : List Date) :
    s.asked location (days ++ days') = (s.asked location days).asked location days' := by
  rw [asked, List.foldl_append]
  rfl

theorem weather_asked (hSource : s.providers.weather = some source) (location : Location)
    (days : List Date) : (s.asked location days).providers.weather =
      some (source.after (days.map fun d => (s.moment, d, location))) := by
  induction days using List.reverseRecOn with
  | nil => exact hSource
  | append_singleton days day ih =>
    rw [asked_append, List.map_append, List.map_singleton, Source.after_append]
    exact congrArg (fun p : Query.Answer _ × Directory => p.2.weather)
      (Directory.ask_weather ih _ day location)

theorem ask_asked (hSource : s.providers.weather = some source)
    (hReports : source.Reports s.moment location report) (before : List Date) (day : Date) :
    (s.asked location before).providers.ask s.moment (.weather day location) =
      (report day, (s.asked location (before ++ [day])).providers) := by
  refine Prod.ext ?_ ?_
  · rw [Directory.ask_weather (weather_asked hSource location before)]
    exact hReports before day
  · rw [asked_append]
    rfl

theorem does_weather (hSource : s.providers.weather = some source)
    (hReports : source.Reports s.moment location report) (before : List Date) (day : Date)
    (next : Except ProviderError WeatherReport → Process) :
    Does (some run) (.consult (.weather day location) next) (s.asked location before)
      [.ask (.weather day location)] (next (report day)) (s.asked location (before ++ [day])) := by
  have hConsult : Does (some run) _ (s.asked location before) _ _ _ :=
    does_consult (.weather day location) next
  rw [show (s.asked location before).moment = s.moment from rfl,
    ask_asked hSource hReports before day] at hConsult
  exact hConsult

/-- The provider is asked for one day after the other. -/
theorem does_reportDays (hSource : s.providers.weather = some source)
    (hReports : source.Reports s.moment location report) (days : List Date)
    (next : List DayReport → Process) :
    Does (some run) (reportDays location days next) s (days.map fun day => .ask (.weather day location))
      (next (days.map fun day => (day, (report day).map WeatherReport.toValue)))
      (s.asked location days) := by
  -- The days that have been asked for are in the session, and their reports are in the argument.
  have hRest : ∀ (days before : List Date) (reports : List DayReport),
      Does (some run)
        (days.foldr (fun day rest reports => .consult (.weather day location) fun answer =>
          rest (reports ++ [(day, answer.map WeatherReport.toValue)])) next reports)
        (s.asked location before) (days.map fun day => .ask (.weather day location))
        (next (reports ++ days.map fun day => (day, (report day).map WeatherReport.toValue)))
        (s.asked location (before ++ days)) := by
    intro days
    induction days with
    | nil =>
      intro before reports
      rw [List.map_nil, List.map_nil, List.append_nil, List.append_nil]
      exact .refl _ _
    | cons day rest ih =>
      intro before reports
      have hLater := ih (before ++ [day])
        (reports ++ [(day, (report day).map WeatherReport.toValue)])
      rw [List.append_assoc, List.append_assoc] at hLater
      exact (does_weather hSource hReports before day _).trans hLater
  exact hRest days [] []

/-! ## Publishing -/

/-- The session after reports have been put on scopes. -/
def published (s : Session) (run : Publisher) (puts : List (ScopeId × Value)) : Session :=
  puts.foldl (fun s put => s.publish (some run) put.1 "weather" put.2) s

/-- The reports that scopes get. -/
def putsOf (dated : List (ScopeId × Date)) (reports : List DayReport) : List (ScopeId × Value) :=
  dated.filterMap fun entry => (goodReport? reports entry.2).map (entry.1, ·)

/-- The reports are put on one scope after the other. -/
theorem does_annotate (dated : List (ScopeId × Date)) (reports : List DayReport) (next : Process) :
    Does (some run) (annotate dated reports next) s
      ((putsOf dated reports).map fun put => .put put.1 "weather" put.2) next
      (s.published run (putsOf dated reports)) := by
  induction dated generalizing s with
  | nil => exact .refl _ _
  | cons first rest ih =>
    obtain ⟨x, day⟩ := first
    rw [annotate, List.foldr_cons, ← annotate]
    dsimp only
    cases hReport : goodReport? reports day with
    | none =>
      have hPuts : putsOf ((x, day) :: rest) reports = putsOf rest reports :=
        List.filterMap_cons_none (by simp [hReport])
      rw [hPuts]
      exact ih
    | some v =>
      have hPuts : putsOf ((x, day) :: rest) reports = (x, v) :: putsOf rest reports :=
        List.filterMap_cons_some (by simp [hReport])
      rw [hPuts]
      exact (does_publish x "weather" v _).trans ih

theorem record?_publish {target : ScopeId} (name : String) (data : Value)
    (h : Admits s.tree (some run) target) (x : ScopeId) :
    (s.publish (some run) target name data).tree.record? x =
      if x = target then (s.tree.record? target).map (withResult (resultOf (some run) name data))
      else s.tree.record? x := by
  rw [publish_of_admits name data h, record?_modify]

/-- A result keeps no run from putting more results on scopes. -/
theorem admits_publish {target y : ScopeId} (name : String) (data : Value)
    (hTarget : Admits s.tree (some run) target) (h : Admits s.tree (some run) y) :
    Admits (s.publish (some run) target name data).tree (some run) y := by
  have hKept : ∀ x r, s.tree.record? x = some r → ∃ r',
      (s.publish (some run) target name data).tree.record? x = some r' ∧ r'.epoch = r.epoch ∧
        r'.disabled = r.disabled := by
    intro x r hr
    rw [record?_publish name data hTarget]
    split
    · rename_i hx
      exact ⟨withResult (resultOf (some run) name data) r, by rw [← hx, hr]; rfl, rfl, rfl⟩
    · exact ⟨r, hr, rfl, rfl⟩
  obtain ⟨hCounts, r, hr, hEnabled⟩ := h
  obtain ⟨r', hr', -, hDisabled⟩ := hKept y r hr
  refine ⟨fun p hp => ?_, r', hr', hDisabled.trans hEnabled⟩
  obtain ⟨q, hq, hEpoch, hRuns⟩ := hCounts p hp
  obtain ⟨q', hq', hEpoch', hRuns'⟩ := hKept _ q hq
  exact ⟨q', hq', hEpoch'.trans hEpoch, hRuns'.trans hRuns⟩

/-- What reports leave on scopes. -/
theorem record?_published {puts : List (ScopeId × Value)} (hNodup : (puts.map Prod.fst).Nodup)
    (hAdmits : ∀ x ∈ puts.map Prod.fst, Admits s.tree (some run) x) (x : ScopeId) :
    (x ∉ puts.map Prod.fst → (s.published run puts).tree.record? x = s.tree.record? x) ∧
    ∀ v, (x, v) ∈ puts → (s.published run puts).tree.record? x =
      (s.tree.record? x).map (withResult (resultOf (some run) "weather" v)) := by
  induction puts generalizing s with
  | nil => exact ⟨fun _ => rfl, fun v hMem => by cases hMem⟩
  | cons first rest ih =>
    obtain ⟨y, w⟩ := first
    rw [List.map_cons, List.nodup_cons] at hNodup
    rw [List.map_cons, List.forall_mem_cons] at hAdmits
    obtain ⟨hFirst, hRest⟩ := hAdmits
    have hLater := ih (s := s.publish (some run) y "weather" w) hNodup.2
      fun x hx => admits_publish "weather" w hFirst (hRest x hx)
    have hRecord := record?_publish "weather" w hFirst x
    refine ⟨fun hx => ?_, fun v hMem => ?_⟩
    · rw [List.map_cons, List.mem_cons, not_or] at hx
      rw [if_neg hx.1] at hRecord
      exact (hLater.1 hx.2).trans hRecord
    · rcases List.mem_cons.mp hMem with hEq | hIn
      · obtain ⟨rfl, rfl⟩ := Prod.mk.inj hEq
        rw [if_pos rfl] at hRecord
        exact (hLater.1 hNodup.1).trans hRecord
      · have hTarget : x ∈ rest.map Prod.fst := List.mem_map_of_mem (f := Prod.fst) hIn
        have hx : x ≠ y := fun hEq => hNodup.1 (hEq ▸ hTarget)
        rw [if_neg hx] at hRecord
        exact (hLater.2 v hIn).trans (by rw [hRecord])

/-- A report is the one result of its name that its scope has from the scope of the run. -/
theorem results_published {puts : List (ScopeId × Value)} (hUnrepeated : Unrepeated s.tree)
    (hNodup : (puts.map Prod.fst).Nodup)
    (hAdmits : ∀ x ∈ puts.map Prod.fst, Admits s.tree (some run) x) (x : ScopeId) (v : Value)
    (hPut : (x, v) ∈ puts) :
    ((s.published run puts).tree.results x).filter (·.source = (some run.scope, "weather")) =
      [⟨"weather", v, some run.scope, run.epoch⟩] ∧
    ((s.published run puts).tree.results x).filter (·.source ≠ (some run.scope, "weather")) =
      (s.tree.results x).filter (·.source ≠ (some run.scope, "weather")) := by
  obtain ⟨r, hr, -⟩ := (hAdmits x (List.mem_map_of_mem (f := Prod.fst) hPut)).2
  have hOld := hUnrepeated x
  rw [results_of_record? hr] at hOld
  have hPuts : Puts (resultOf (some run) "weather" v) _ _ := puts_insertResult hOld
  have hNew := (record?_published hNodup hAdmits x).2 v hPut
  rw [hr, Option.map_some] at hNew
  rw [results_of_record? hr, results_of_record? hNew]
  exact hPuts.filter

/-! ## Dated scopes -/

/-- A scope below another one has a date, and it is the wanted one if there is one. -/
structure Dated (t : ScopeTree) (scope : ScopeId) (date : Option Date) (x : ScopeId) (day : Date) :
    Prop where
  below : TransGen (t.Leads false) scope x
  value : (t.typedValue? x).bind Value.asDate = some day
  wanted : ∀ d ∈ date, day = d

/-- No scope is below itself. -/
theorem not_below_self {t : ScopeTree} {x : ScopeId} (h : t.Rooted) :
    ¬ TransGen (t.Leads false) x x := fun hx => by
  obtain ⟨y, hxy, hyx⟩ := TransGen.head'_iff.mp hx
  exact h.not_reaches_owner (owns_of_leads hxy) (reaches_of_leads hyx)

theorem below_tail {t : ScopeTree} {x y : ScopeId} {r : ScopeRecord} (h : t.Rooted)
    (hx : t.record? x = some r) : (t.below false x).tail.Nodup ∧
      (y ∈ (t.below false x).tail ↔ TransGen (t.Leads false) x y) := by
  have hNodup : (t.below false x).Nodup := h.nodup_descend hx
  have hMem : ∀ y, y ∈ t.below false x ↔ ReflTransGen (t.Leads false) x y := fun y =>
    h.mem_descend_fst hx
  have hHead : t.below false x = x :: (t.below false x).tail := by
    rw [ScopeTree.below, h.descend_eq hx]
    rfl
  rw [hHead] at hNodup
  obtain ⟨hNot, hRest⟩ := List.nodup_cons.mp hNodup
  refine ⟨hRest, fun hy => ?_, fun hy => ?_⟩
  · have hyx := (hMem y).mp (List.mem_of_mem_tail hy)
    rcases ReflTransGen.cases_head hyx with rfl | ⟨z, hxz, hzy⟩
    · exact (hNot hy).elim
    · exact .head' hxz hzy
  · have hyx := (hMem y).mpr hy.to_reflTransGen
    rw [hHead] at hyx
    refine (List.mem_cons.mp hyx).resolve_left ?_
    rintro rfl
    exact not_below_self h hy

/-- The dated scopes below a scope, once all scopes below it have their values. -/
theorem does_withDatedScopes {scope : ScopeId} (hBelow : ∀ x ∈ (s.tree.below false scope).tail,
      ∃ values, s.tree.values? x = some values) (date : Option Date)
    (next : List (ScopeId × Date) → Process) :
    Does (some run) (withDatedScopes scope date next) s []
      (next ((s.tree.below false scope).tail.filterMap (datedScope? s.tree date))) s := by
  let below := (s.tree.below false scope).tail
  have hLook : Does (some run) (withDatedScopes scope date next) s []
      (.gather (below.map fun id => .await id fun _ => .done .undefined) fun _ =>
        .look fun t => next (below.filterMap (datedScope? t date))) s := does_look _
  have hParts : List.Forall₂ (fun p v => Does (some run) p s [] (.done v) s)
      (below.map fun id => .await id fun _ => .done .undefined) (below.map fun _ => .undefined) := by
    rw [List.forall₂_map_left_iff, List.forall₂_map_right_iff, List.forall₂_same]
    intro x hx
    obtain ⟨values, hValues⟩ := hBelow x hx
    exact does_await hValues _
  exact (hLook.trans (does_gather hParts _)).trans (does_look _)

theorem mem_dated {t : ScopeTree} {scope x : ScopeId} {r : ScopeRecord} {day : Date} (h : t.Rooted)
    (hr : t.record? scope = some r) (date : Option Date) :
    (x, day) ∈ (t.below false scope).tail.filterMap (datedScope? t date) ↔
      Dated t scope date x day := by
  rw [List.mem_filterMap]
  constructor
  · rintro ⟨y, hy, hDated⟩
    obtain ⟨rfl, hValue, hWanted⟩ := datedScope?_eq_some_iff.mp hDated
    exact ⟨(below_tail h hr).2.mp hy, hValue, hWanted⟩
  · intro hDated
    exact ⟨x, (below_tail h hr).2.mpr hDated.below,
      datedScope?_eq_some_iff.mpr ⟨rfl, hDated.value, hDated.wanted⟩⟩

/-- What is made of some elements of a list has keys in the order of the list. -/
theorem map_fst_filterMap_sublist {α β κ : Type} {f : α → Option (κ × β)} {key : α → κ}
    (h : ∀ a e, f a = some e → e.1 = key a) (l : List α) :
    ((l.filterMap f).map Prod.fst).Sublist (l.map key) := by
  induction l with
  | nil => exact .slnil
  | cons a rest ih =>
    cases hEntry : f a with
    | none =>
      rw [List.filterMap_cons_none hEntry]
      exact ih.cons _
    | some e =>
      rw [List.filterMap_cons_some hEntry, List.map_cons, List.map_cons, h a e hEntry]
      exact ih.cons_cons _

theorem nodup_dated {t : ScopeTree} {scope : ScopeId} {r : ScopeRecord} (h : t.Rooted)
    (hr : t.record? scope = some r) (date : Option Date) :
    (((t.below false scope).tail.filterMap (datedScope? t date)).map Prod.fst).Nodup := by
  have hKeys : ∀ x e, datedScope? t date x = some e → e.1 = id x := fun x e hEntry =>
    (datedScope?_eq_some_iff.mp hEntry).1
  have hSublist := map_fst_filterMap_sublist hKeys (t.below false scope).tail
  rw [List.map_id] at hSublist
  exact (below_tail (y := scope) h hr).1.sublist hSublist

/-! ## Reports of dated scopes -/

section Puts

variable {dated : List (ScopeId × Date)} {reports : List DayReport}

theorem nodup_putsOf (h : (dated.map Prod.fst).Nodup) :
    ((putsOf dated reports).map Prod.fst).Nodup := by
  refine h.sublist (map_fst_filterMap_sublist (fun entry e hEntry => ?_) dated)
  obtain ⟨v, -, rfl⟩ := Option.map_eq_some_iff.mp hEntry
  rfl

theorem mem_putsOf {x : ScopeId} {v : Value} : (x, v) ∈ putsOf dated reports ↔
    ∃ day, (x, day) ∈ dated ∧ goodReport? reports day = some v := by
  rw [putsOf, List.mem_filterMap]
  constructor
  · rintro ⟨⟨y, day⟩, hDated, hPut⟩
    obtain ⟨w, hReport, hEq⟩ := Option.map_eq_some_iff.mp hPut
    obtain ⟨rfl, rfl⟩ := Prod.mk.inj hEq
    exact ⟨day, hDated, hReport⟩
  · rintro ⟨day, hDated, hReport⟩
    exact ⟨(x, day), hDated, Option.map_eq_some_iff.mpr ⟨v, hReport, rfl⟩⟩

theorem countP_good (dated : List (ScopeId × Date)) (reports : List DayReport) :
    dated.countP (fun (_, day) => (goodReport? reports day).isSome) = (putsOf dated reports).length := by
  rw [putsOf, List.length_filterMap_eq_countP]
  simp only [Option.isSome_map]

end Puts

theorem goodReport?_map {days : List Date} {day : Date} (hDay : day ∈ days) {v : Value} :
    goodReport? (days.map fun day => (day, (report day).map WeatherReport.toValue)) day = some v ↔
      ∃ weather, report day = .ok weather ∧ v = weather.toValue := by
  rw [goodReport?, reportOf?_map, if_pos hDay]
  cases report day with
  | error e => simp [Except.map, Except.toOption]
  | ok weather => simp [Except.map, Except.toOption, eq_comm]

/-! ## Calls -/

/-- What a call of the weather function ends with, once reports have been put on scopes. -/
def ending (scope : ScopeId) (date : Option Date) (reports : List DayReport) (count : Nat)
    (next : Outcome → Process) : Process :=
  match date with
  | some day =>
      match reportOf? reports day with
      | some (.ok report) => .publish scope "weather" report (next (.ok report))
      | some (.error e) => next (.error (.provider e))
      | none => next (.ok .undefined)
  | none => next (.ok (.ofInt count))

/-- What a call of the weather function goes on with when it has its arguments. -/
def reporting (scope : ScopeId) (location : Location) (date : Option Date)
    (next : Outcome → Process) : Process :=
  withDatedScopes scope date fun dated =>
    reportDays location ((dated.map Prod.snd ++ date.toList).foldr insertDay []) fun reports =>
      annotate dated reports
        (ending scope date reports (dated.countP fun (_, d) => (goodReport? reports d).isSome) next)

theorem goes_call {args : CallArgs} {scope : ScopeId} {v : Value} {w : Option Value}
    {between : Session} (hLocation : Finds (some run) s (withSlot args "location" 0) (some v) between)
    (hDate : Finds (some run) between (withSlot args "date" 1) w s')
    (hIsLocation : v.asLocation = some location) (hIsDate : w.map Value.asDate = date.map some)
    (next : Outcome → Process) :
    Goes (some run) ((weather true).call args scope next) s [] (reporting scope location date next)
      s' := by
  have hExpect : expect "Weather" "location" Value.asLocation v = .ok location := by
    rw [expect, hIsLocation]
  have hExpectDate : expectOptional "Weather" "date" Value.asDate w = .ok date := by
    cases w with
    | none =>
      cases date with
      | none => rfl
      | some day => cases hIsDate
    | some u =>
      cases date with
      | none => cases hIsDate
      | some day =>
        have hDay : u.asDate = some day := Option.some.inj hIsDate
        rw [expectOptional, expect, hDay]
        rfl
  dsimp only [Functions.weather]
  refine (hLocation _).trans ?_
  dsimp only
  rw [hExpect, orFail]
  refine (hDate _).trans ?_
  rw [hExpectDate, orFail]
  exact .now (.refl _ _)

/-- The report that the scope of a call gets. -/
def ownPuts (scope : ScopeId) (date : Option Date)
    (report : Date → Except ProviderError WeatherReport) : List (ScopeId × Value) :=
  (date.bind fun day => (report day).toOption).toList.map fun weather => (scope, weather.toValue)

/-- The outcome of a call for which some scopes have got reports. -/
def outcomeOf (date : Option Date) (report : Date → Except ProviderError WeatherReport) (count : Nat) :
    Outcome :=
  match date with
  | none => .ok (.ofInt count)
  | some day => ((report day).map WeatherReport.toValue).mapError .provider

/-- The scope of a call gets the report of its date. -/
theorem does_ending {days : List Date} (hDate : ∀ day ∈ date, day ∈ days) (scope : ScopeId)
    (count : Nat) (next : Outcome → Process) :
    Does (some run)
      (ending scope date (days.map fun day => (day, (report day).map WeatherReport.toValue)) count next)
      s ((ownPuts scope date report).map fun put => .put put.1 "weather" put.2)
      (next (outcomeOf date report count)) (s.published run (ownPuts scope date report)) := by
  cases date with
  | none => exact .refl _ _
  | some day =>
    rw [ending, reportOf?_map, if_pos (hDate day rfl), ownPuts, outcomeOf, Option.bind_some]
    cases report day with
    | error e => exact .refl _ _
    | ok weather => exact does_publish scope "weather" weather.toValue _

theorem published_append (s : Session) (run : Publisher) (puts puts' : List (ScopeId × Value)) :
    s.published run (puts ++ puts') = (s.published run puts).published run puts' :=
  List.foldl_append

theorem mem_ownPuts {scope x : ScopeId} {v : Value} : (x, v) ∈ ownPuts scope date report ↔
    x = scope ∧ ∃ day weather, date = some day ∧ report day = .ok weather ∧ v = weather.toValue := by
  cases date with
  | none => simp [ownPuts]
  | some day => cases hReport : report day <;> simp [ownPuts, hReport, Except.toOption]

theorem nodup_ownPuts (scope : ScopeId) (date : Option Date)
    (report : Date → Except ProviderError WeatherReport) :
    ((ownPuts scope date report).map Prod.fst).Nodup := by
  rw [ownPuts]
  cases date.bind fun day => (report day).toOption with
  | none => exact List.nodup_nil
  | some weather => exact List.nodup_singleton _

/-- The scopes below a scope that have a date, with their days. -/
def datedBelow (t : ScopeTree) (scope : ScopeId) (date : Option Date) : List (ScopeId × Date) :=
  (t.below false scope).tail.filterMap (datedScope? t date)

/-- The days that a call asks for. -/
def daysOf (t : ScopeTree) (scope : ScopeId) (date : Option Date) : List Date :=
  ((datedBelow t scope date).map Prod.snd ++ date.toList).foldr insertDay []

/-- The reports that a call puts on dated scopes. -/
def putsBelow (t : ScopeTree) (scope : ScopeId) (date : Option Date)
    (report : Date → Except ProviderError WeatherReport) : List (ScopeId × Value) :=
  putsOf (datedBelow t scope date)
    ((daysOf t scope date).map fun day => (day, (report day).map WeatherReport.toValue))

/-- All reports that a call puts on scopes, on its own scope last. -/
def putsOfCall (t : ScopeTree) (scope : ScopeId) (date : Option Date)
    (report : Date → Except ProviderError WeatherReport) : List (ScopeId × Value) :=
  putsBelow t scope date report ++ ownPuts scope date report

/-- The session after a call. -/
def answered (s : Session) (run : Publisher) (location : Location) (date : Option Date)
    (report : Date → Except ProviderError WeatherReport) : Session :=
  (s.asked location (daysOf s.tree run.scope date)).published run
    (putsOfCall s.tree run.scope date report)

section Tree

variable {t : ScopeTree} {scope : ScopeId} {r : ScopeRecord} (h : t.Rooted)
  (hr : t.record? scope = some r)
include h hr

theorem mem_daysOf {day : Date} : day ∈ daysOf t scope date ↔
    day ∈ date ∨ ∃ x, Dated t scope date x day := by
  rw [daysOf, (days_of _).2, List.mem_append, Option.mem_toList, or_comm, List.mem_map]
  refine or_congr_right ⟨?_, fun ⟨x, hx⟩ => ⟨(x, day), (mem_dated h hr date).mpr hx, rfl⟩⟩
  rintro ⟨⟨x, e⟩, hDated, rfl⟩
  exact ⟨x, (mem_dated h hr date).mp hDated⟩

theorem mem_putsBelow {x : ScopeId} {v : Value} : (x, v) ∈ putsBelow t scope date report ↔
    ∃ day weather, report day = .ok weather ∧ v = weather.toValue ∧ Dated t scope date x day := by
  rw [putsBelow, mem_putsOf]
  constructor
  · rintro ⟨day, hDated, hReport⟩
    have hx := (mem_dated h hr date).mp hDated
    have hDay := (mem_daysOf h hr).mpr (.inr ⟨x, hx⟩)
    obtain ⟨weather, hWeather, hv⟩ := (goodReport?_map hDay).mp hReport
    exact ⟨day, weather, hWeather, hv, hx⟩
  · rintro ⟨day, weather, hWeather, hv, hx⟩
    have hDay := (mem_daysOf h hr).mpr (.inr ⟨x, hx⟩)
    exact ⟨day, (mem_dated h hr date).mpr hx, (goodReport?_map hDay).mpr ⟨weather, hWeather, hv⟩⟩

theorem mem_putsOfCall {x : ScopeId} {v : Value} : (x, v) ∈ putsOfCall t scope date report ↔
    ∃ day weather, report day = .ok weather ∧ v = weather.toValue ∧
      (Dated t scope date x day ∨ x = scope ∧ date = some day) := by
  rw [putsOfCall, List.mem_append, mem_putsBelow h hr, mem_ownPuts]
  grind

/-- No scope gets two reports, since the scope of the call is not below itself. -/
theorem nodup_putsOfCall : ((putsOfCall t scope date report).map Prod.fst).Nodup := by
  rw [putsOfCall, List.map_append]
  refine List.nodup_append.mpr
    ⟨nodup_putsOf (nodup_dated h hr date), nodup_ownPuts scope date report, ?_⟩
  rintro x hx y hy rfl
  obtain ⟨⟨x, v⟩, hPut, rfl⟩ := List.mem_map.mp hx
  obtain ⟨⟨y, w⟩, hOwn, hEq⟩ := List.mem_map.mp hy
  obtain ⟨_, _, _, _, hDated⟩ := (mem_putsBelow h hr).mp hPut
  obtain ⟨rfl, -⟩ := mem_ownPuts.mp hOwn
  obtain rfl : y = x := hEq
  exact not_below_self h hDated.below

end Tree

/-- The call with its arguments, while all scopes below have their values. -/
theorem does_reporting (h : s.tree.Rooted) {r : ScopeRecord} (hr : s.tree.record? run.scope = some r)
    (hBelow : ∀ x, TransGen (s.tree.Leads false) run.scope x → s.tree.isResolved x = true)
    (hSource : s.providers.weather = some source)
    (hReports : source.Reports s.moment location report) (date : Option Date)
    (next : Outcome → Process) :
    Does (some run) (reporting run.scope location date next) s
      (((daysOf s.tree run.scope date).map fun day => .ask (.weather day location)) ++
        (putsOfCall s.tree run.scope date report).map fun put => .put put.1 "weather" put.2)
      (next (outcomeOf date report (putsBelow s.tree run.scope date report).length))
      (s.answered run location date report) := by
  have hValues : ∀ x ∈ (s.tree.below false run.scope).tail, ∃ values, s.tree.values? x = some values :=
    fun x hx => Option.isSome_iff_exists.mp (hBelow x ((below_tail h hr).2.mp hx))
  have hDays : ∀ day ∈ date, day ∈ daysOf s.tree run.scope date := fun day hDay =>
    (mem_daysOf h hr).mpr (.inl hDay)
  have hDated : ∀ next, Does (some run) (withDatedScopes run.scope date next) s [] _ s :=
    does_withDatedScopes hValues date
  rw [answered, putsOfCall, List.map_append, published_append, ← List.append_assoc]
  refine (((hDated _).trans (does_reportDays hSource hReports _ _)).trans
    (does_annotate _ _ _)).trans ?_
  rw [countP_good]
  exact does_ending hDays run.scope _ next

/-- What a call of the weather function does in a session: it asks for the weather of `days`, and puts
`puts` on scopes. The call is part of the evaluation `run`, and may have a date. -/
structure Annotates (s : Session) (run : Publisher) (date : Option Date)
    (report : Date → Except ProviderError WeatherReport) (days : List Date)
    (puts : List (ScopeId × Value)) (outcome : Outcome) (s' : Session) : Prop where
  /-- Each day is asked for once. -/
  days_nodup : days.Nodup
  /-- The days are those of the dated scopes below, and the date. -/
  mem_days : ∀ day, day ∈ days ↔ day ∈ date ∨ ∃ x, Dated s.tree run.scope date x day
  /-- No scope gets two reports. -/
  puts_nodup : (puts.map Prod.fst).Nodup
  /-- A dated scope gets the report of its day, the scope of the call that of the date, if there is
  one. -/
  mem_puts : ∀ x v, (x, v) ∈ puts ↔ ∃ day weather, report day = .ok weather ∧ v = weather.toValue ∧
    (Dated s.tree run.scope date x day ∨ x = run.scope ∧ date = some day)
  /-- A report is the one result of its name that its scope has from the scope of the call. -/
  put : ∀ x v, (x, v) ∈ puts →
    (s'.tree.results x).filter (·.source = (some run.scope, "weather")) =
      [⟨"weather", v, some run.scope, run.epoch⟩] ∧
    (s'.tree.results x).filter (·.source ≠ (some run.scope, "weather")) =
      (s.tree.results x).filter (·.source ≠ (some run.scope, "weather"))
  /-- Other scopes stay as they are. -/
  kept : ∀ x, x ∉ puts.map Prod.fst → s'.tree.record? x = s.tree.record? x
  /-- So does the scope of the call, unless it gets the report of the date. -/
  spared : (∀ day weather, date = some day → report day ≠ .ok weather) →
    s'.tree.record? run.scope = s.tree.record? run.scope
  /-- Without a date the outcome is the number of scopes that have got a report. -/
  counted : date = none → outcome = .ok (.ofInt puts.length)
  /-- With a date it is the report of the date, or the reason why there is none. -/
  reported : ∀ day, date = some day →
    outcome = ((report day).map WeatherReport.toValue).mapError .provider

theorem annotates (h : s.tree.Rooted) (hUnrepeated : Unrepeated s.tree) (hCounts : Counts s.tree run)
    (hBelow : ∀ x, TransGen (s.tree.Leads false) run.scope x → s.tree.IsEnabled x)
    (location : Location) (date : Option Date)
    (report : Date → Except ProviderError WeatherReport) :
    Annotates s run date report (daysOf s.tree run.scope date)
      (putsOfCall s.tree run.scope date report)
      (outcomeOf date report (putsBelow s.tree run.scope date report).length)
      (s.answered run location date report) := by
  have hCurrent := hCounts
  obtain ⟨r, hr, -, hEnabled⟩ := hCounts
  have hNodup : ((putsOfCall s.tree run.scope date report).map Prod.fst).Nodup :=
    nodup_putsOfCall h hr
  have hAdmits : ∀ x ∈ (putsOfCall s.tree run.scope date report).map Prod.fst,
      Admits (s.asked location (daysOf s.tree run.scope date)).tree (some run) x := by
    intro x hx
    obtain ⟨⟨x, v⟩, hPut, rfl⟩ := List.mem_map.mp hx
    refine ⟨fun p hp => Option.some.inj hp ▸ hCurrent, ?_⟩
    obtain ⟨_, _, _, _, hDated | ⟨rfl, -⟩⟩ := (mem_putsOfCall h hr).mp hPut
    · exact hBelow x hDated.below
    · exact ⟨r, hr, hEnabled⟩
  have hKept := fun x => (record?_published hNodup hAdmits x).1
  have hResults := results_published (s := s.asked location (daysOf s.tree run.scope date))
    hUnrepeated hNodup hAdmits
  exact
    { days_nodup := (days_of _).1
      mem_days := fun day => mem_daysOf h hr
      puts_nodup := hNodup
      mem_puts := fun x v => mem_putsOfCall h hr
      put := hResults
      kept := hKept
      spared := fun hNone => by
        refine hKept run.scope fun hIn => ?_
        obtain ⟨⟨x, v⟩, hPut, hSelf⟩ := List.mem_map.mp hIn
        obtain rfl : x = run.scope := hSelf
        obtain ⟨day, weather, hReport, -, hDated | ⟨-, hDay⟩⟩ := (mem_putsOfCall h hr).mp hPut
        · exact not_below_self h hDated.below
        · exact hNone day weather hDay hReport
      counted := fun hNone => by
        subst hNone
        rw [putsOfCall, ownPuts, Option.bind_none, Option.toList_none, List.map_nil,
          List.append_nil]
        rfl
      reported := fun day hDay => by
        subst hDay
        rfl }

/-- Whatever has happened to the session of a document, a current evaluation that calls the weather
function with a location, and perhaps a date, while all scopes below have their values, does this: the
provider is asked once for each day of a dated scope below and for the date, and each dated scope whose
day has a report gets it, and no other scope below. -/
theorem weather_annotates {d : Document} {functions : Registry}
    {config : EngineConfig} {providers : Directory} {args : CallArgs} {between last : Session}
    {v : Value} {w : Option Value}
    (hLocation : Finds (some run) s (withSlot args "location" 0) (some v) between)
    (hIsLocation : v.asLocation = some location)
    (hDate : Finds (some run) between (withSlot args "date" 1) w last)
    (hIsDate : w.map Value.asDate = date.map some)
    (hFollows : (ofTree (.build d) functions config providers).Follows last)
    (hCounts : Counts last.tree run)
    (hBelow : ∀ x, TransGen (last.tree.Leads false) run.scope x →
      last.tree.IsEnabled x ∧ last.tree.isResolved x = true)
    (hSource : last.providers.weather = some source)
    (hReports : source.Reports last.moment location report) (next : Outcome → Process) :
    ∃ days puts outcome final,
      Goes (some run) ((weather true).call args run.scope next) s []
        (reporting run.scope location date next) last ∧
      Does (some run) (reporting run.scope location date next) last
        ((days.map fun day => .ask (.weather day location)) ++
          puts.map fun put => .put put.1 "weather" put.2) (next outcome) final ∧
      Annotates last run date report days puts outcome final := by
  obtain ⟨happenings, rfl⟩ := hFollows
  have h := (accounted_build d functions config providers).happenAll happenings
  have hCurrent := hCounts
  obtain ⟨r, hr, -⟩ := hCounts
  exact ⟨_, _, _, _, goes_call hLocation hDate hIsLocation hIsDate next,
    does_reporting h.rooted hr (fun x hx => (hBelow x hx).2) hSource hReports date next,
    annotates h.rooted h.unrepeated hCurrent (fun x hx => (hBelow x hx).1) location date report⟩

/-! ### A journey of three days -/

/-- A call with a place and four bullets below, three of them with days. -/
def journey : Document :=
  ⟨"root", [⟨"root", "", ["p", "w"]⟩, ⟨"p", "52.5, 13.4", []⟩,
    ⟨"w", "\x7bWeather(#[p])\x7d", ["a", "b", "c", "d"]⟩, ⟨"a", "2024-05-01", []⟩,
    ⟨"b", "2024-05-02", []⟩, ⟨"c", "2024-05-01", []⟩, ⟨"d", "Pack", []⟩], 0⟩

def journeyBlueprint : Blueprint :=
  let text (node value : String) (span : Span) : Blueprint :=
    .scope node ⟨none, [.string span value], span⟩ [] []
  let p := text "p" "52.5, 13.4" ⟨0, 10, 1, 1⟩
  .scope "root" ⟨none, [], ⟨0, 0, 1, 1⟩⟩
    [p,
      .scope "w"
        ⟨none, [.inline ⟨0, 15, 1, 1⟩ (.call ⟨1, 14, 1, 2⟩ "Weather"
          [⟨none, .reference ⟨9, 13, 1, 10⟩ "p", ⟨9, 13, 1, 10⟩⟩])], ⟨0, 15, 1, 1⟩⟩
        [text "a" "2024-05-01" ⟨0, 10, 1, 1⟩, text "b" "2024-05-02" ⟨0, 10, 1, 1⟩,
          text "c" "2024-05-01" ⟨0, 10, 1, 1⟩, text "d" "Pack" ⟨0, 4, 1, 1⟩] [p]] []

set_option maxRecDepth 4000 in
theorem build_journey : build journey = planted journeyBlueprint := build_eq (by cbv)

def secondOfMay : Date := ⟨2024, 5, 2, by decide⟩

def berlin : Location := ⟨52.5, 13.4⟩

/-- Nothing is known about the second of May. -/
def unsettled : WeatherSource :=
  weather.source "mock-weather" fun (day, location) =>
    if day = secondOfMay then .error (Fixed.notFound "mock-weather" "2024-05-02")
    else .ok (Fixed.weatherOf day location)

def forecasts : Directory := { Directory.empty with weather := some unsettled }

/-- The evaluation of the call. -/
def planning : Publisher := ⟨⟨2, 0⟩, 1⟩

/-- The call is under way, and all bullets below it have their values. -/
def underWay : Session :=
  (ofTree (.build journey) (.builtin true) .default forecasts).happenAll
    [.start ⟨2, 0⟩ false, .start ⟨3, 0⟩ false, .start ⟨4, 0⟩ false, .start ⟨5, 0⟩ false,
      .start ⟨6, 0⟩ false, .complete ⟨⟨3, 0⟩, 1⟩ [.date firstOfMay],
      .complete ⟨⟨4, 0⟩, 1⟩ [.date secondOfMay], .complete ⟨⟨5, 0⟩, 1⟩ [.date firstOfMay],
      .complete ⟨⟨6, 0⟩, 1⟩ [.text "Pack"]]

/-- The place is known, too. -/
def located : Session :=
  (underWay.happen (.start ⟨7, 0⟩ false)).happen (.complete ⟨⟨7, 0⟩, 1⟩ [.location berlin])

/-- What the evaluation does with the outcome of the call. -/
def planned (outcome : Outcome) : Process := .done (Evaluation.outcomeValue outcome)

theorem rooted_located : located.tree.Rooted :=
  rooted_happen (rooted_happen ((accounted_build journey _ _ _).happenAll _).rooted _) _

set_option maxRecDepth 4000 in
theorem state_located : (located.tree.record? ⟨7, 0⟩).map ScopeRecord.state =
    some (.resolved [.location berlin]) := by
  rw [located, underWay, build_journey]
  rfl

set_option maxRecDepth 4000 in
theorem weather_located : located.providers.weather = some unsettled := by
  rw [located, underWay, build_journey]
  rfl

/-- While the place is not known, the call waits for it. -/
theorem finds_place : Finds (some planning) underWay
    (withSlot ⟨[.scope ⟨7, 0⟩], []⟩ "location" 0) (some (.location berlin)) located := by
  have hWaits : underWay.tree.isResolved ⟨7, 0⟩ = false ∧
      underWay.tree.isDisabled ⟨7, 0⟩ = false ∧ underWay.tree.isLive ⟨7, 0⟩ = true ∧
      underWay.config.resolutionTimeoutMs ≠ 0 := by
    rw [underWay, build_journey]
    decide +kernel
  obtain ⟨hUnresolved, hEnabled, hLive, hPatient⟩ := hWaits
  obtain ⟨r, hr, hState⟩ := Option.map_eq_some_iff.mp state_located
  have hResolved : r.state.values? = some [.location berlin] := by
    rw [hState]
    rfl
  have hValues : located.tree.values? ⟨7, 0⟩ = some [.location berlin] := by
    rw [ScopeTree.values?, ScopeTree.state, hr, Option.map_some, Option.getD_some, hResolved]
  have hTyped : located.tree.typedValue? ⟨7, 0⟩ = some (.location berlin) := by
    rw [typedValue?, candidates, hr]
    dsimp only
    rw [hResolved]
    rfl
  have hNone : underWay.tree.values? ⟨7, 0⟩ = none :=
    Option.isNone_iff_eq_none.mp (Option.isSome_eq_false_iff.mp hUnresolved)
  have hAwait : Finds (some planning) underWay (.await ⟨7, 0⟩) _ located :=
    finds_await_later hNone hEnabled hPatient hValues
  have hFinds := finds_typed hAwait (fun _ hx => by cases hx) hLive
  rw [hTyped] at hFinds
  exact finds_withSlot rfl hFinds rfl

/-- Three scopes have dates. The call waits for the place, and then the provider is asked for two
days. Nothing is known about one of them. -/
theorem weather_annotates_journey :
    underWay.tree.isResolved ⟨7, 0⟩ = false ∧
      datedBelow located.tree ⟨2, 0⟩ none =
        [(⟨3, 0⟩, firstOfMay), (⟨4, 0⟩, secondOfMay), (⟨5, 0⟩, firstOfMay)] ∧
      unsettled.inner (secondOfMay, berlin) =
        .error (Fixed.notFound "mock-weather" "2024-05-02") ∧
      ∃ days puts outcome final,
        Goes (some planning) ((weather true).call ⟨[.scope ⟨7, 0⟩], []⟩ ⟨2, 0⟩ planned) underWay []
          (reporting ⟨2, 0⟩ berlin none planned) located ∧
        Does (some planning) (reporting ⟨2, 0⟩ berlin none planned) located
          ((days.map fun day => .ask (.weather day berlin)) ++
            puts.map fun put => .put put.1 "weather" put.2) (planned outcome) final ∧
        Annotates located planning none (fun day => unsettled.inner (day, berlin)) days puts outcome
          final := by
  have hFollows : (ofTree (.build journey) (.builtin true) .default forecasts).Follows located :=
    (Follows.happen ⟨_, rfl⟩ (.start ⟨7, 0⟩ false)).happen _
  have hUnresolved : underWay.tree.isResolved ⟨7, 0⟩ = false := by
    rw [underWay, build_journey]
    decide +kernel
  have hReady : located.isCurrent planning = true ∧
      datedBelow located.tree ⟨2, 0⟩ none =
        [(⟨3, 0⟩, firstOfMay), (⟨4, 0⟩, secondOfMay), (⟨5, 0⟩, firstOfMay)] ∧
      ∀ x ∈ (located.tree.below false ⟨2, 0⟩).tail,
        located.tree.isDisabled x = false ∧ located.tree.isResolved x = true := by
    rw [located, underWay, build_journey]
    decide +kernel
  obtain ⟨hCurrent, hDated, hBelow⟩ := hReady
  have hCounts : Counts located.tree planning := isCurrent_iff.mp hCurrent
  obtain ⟨r, hr, -⟩ := isCurrent_iff.mp hCurrent
  have hNoDate : Finds (some planning) located (withSlot ⟨[.scope ⟨7, 0⟩], []⟩ "date" 1) none
      located := finds_of_does fun _ => .refl _ _
  refine ⟨hUnresolved, hDated, rfl, weather_annotates finds_place rfl hNoDate rfl hFollows hCounts
    (fun x hx => ?_) weather_located (Source.reports_of_uncached rfl _ _) planned⟩
  obtain ⟨hEnabled, hResolved⟩ := hBelow x ((below_tail rooted_located hr).2.mpr hx)
  exact ⟨isDisabled_eq_false_iff.mp hEnabled, hResolved⟩

end Session

end FormulaOutline
