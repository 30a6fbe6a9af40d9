import LintBridge.Proofs.Service.Watching
import Mathlib.Data.List.Basic
/-!
A plugin and its host over time. The host keeps the watches that it was asked for and calls back for
each that an event concerns. Each turn replaces the settings, makes the runner forget what it has
read, or does neither (`Turn.effect`), and the host is asked to refresh for the first two alone
(`Session.Sound.takes_effect`).
-/
namespace LintBridge

/-- A plugin with what its host has from it: the watches that are registered, and how often it was
asked to refresh. -/
structure Session where
  plugin : Plugin
  watches : List Watch
  refreshes : Nat

inductive Turn where
  | request (c : DiagnosticsCall)
  | set (m : Machine) (settings : Settings)
  | configure (project : Project) (m : Machine) (block : Json)
  | event (project : Project) (m : Machine) (path : Path) (event : WatchEvent)

def Plugin.reported? (p : Plugin) (c : DiagnosticsCall) : Option Path :=
  if p.runs c then (p.report c).result.toOption.bind (·.configPath) else none

namespace Session

def serve {α : Type} (s : Session) (served : Served α) : Session :=
  ⟨served.plugin, s.watches ++ served.registered, s.refreshes + served.refreshes⟩

def notify (s : Session) (project : Project) (m : Machine) (path : Path) (event : WatchEvent) :
    Session :=
  (s.watches.filter (·.path.same path)).foldl
    (fun s w => s.serve (s.plugin.onWatch project m w.kind path event)) s

def turn (s : Session) : Turn → Session
  | .request c => s.serve (s.plugin.diagnosticsFor c)
  | .set m settings => s.serve (s.plugin.setSettings m settings)
  | .configure project m block => s.serve (s.plugin.configure project m block)
  | .event project m path event => s.notify project m path event

def after (s : Session) (history : List Turn) : Session := history.foldl turn s

theorem after_append (s : Session) (history : List Turn) (last : Turn) :
    s.after (history ++ [last]) = (s.after history).turn last := by
  simp [after]

def reported? (s : Session) : Turn → Option Path
  | .request c => s.plugin.reported? c
  | _ => none

def reported (s : Session) : List Turn → List Path
  | [] => []
  | t :: rest => (s.reported? t).toList ++ (s.turn t).reported rest

theorem reported_append (s : Session) (history later : List Turn) :
    s.reported (history ++ later) = s.reported history ++ (s.after history).reported later := by
  induction history generalizing s with
  | nil => rfl
  | cons t rest ih =>
    rw [List.cons_append, reported, ih, reported, List.append_assoc]
    rfl

theorem reported_append_singleton (s : Session) (history : List Turn) (last : Turn) :
    s.reported (history ++ [last]) =
      s.reported history ++ ((s.after history).reported? last).toList := by
  rw [reported_append, reported, reported, List.append_nil]

end Session

/-! ### What a turn is to do -/

inductive Effect where
  | replaces (settings : Settings)
  | forgets
  | nothing
deriving DecidableEq

def Effect.settings? : Effect → Option Settings
  | replaces settings => some settings
  | _ => none

def Effect.ofSettings : Option Settings → Effect
  | some settings => replaces settings
  | none => nothing

def projectSettings? (m : Machine) (path root : Path) : Option Settings := do
  let text ← (m.readText path).toOption
  let value ← (Json.readRelaxed text).toOption
  let block ← Settings.pluginEntry? (value.getD .null)
  (Settings.ofBlock block root).toOption

theorem projectSettings?_eq_some_iff {m : Machine} {path root : Path} {settings : Settings} :
    projectSettings? m path root = some settings ↔
      Settings.ofProjectFile m path root = .ok (some settings) := by
  unfold projectSettings? Settings.ofProjectFile Settings.ofProjectText
  cases m.readText path with
  | error e => simp [Except.toOption]
  | ok text =>
    cases value : Json.readRelaxed text with
    | error e => simp [value, Except.toOption]
    | ok value' =>
      cases entry : Settings.pluginEntry? (value'.getD .null) with
      | none => simp [value, entry, Except.toOption]
      | some block =>
        cases read : Settings.ofBlock block root <;>
          simp [value, entry, read, Except.toOption, Except.map]

def Turn.effect (config : Option Path) (known : List Path) : Turn → Effect
  | request _ => .nothing
  | set _ settings => .replaces settings
  | configure project _ block => .ofSettings (Settings.ofBlock block project.directory).toOption
  | event project m path .changed =>
    if config.any (·.same path) then .ofSettings (projectSettings? m path project.directory)
    else if known.any (·.same path) then .forgets
    else .nothing
  | event _ _ _ _ => .nothing

namespace Session

/-- A turn has an effect and no other. A request has none on the settings and asks for no refresh;
any other turn without effect leaves the session as it is. -/
def Takes (s : Session) (t : Turn) : Effect → Prop
  | .replaces settings =>
    s.turn t = { s with
      plugin := s.plugin.withSettings settings
      refreshes := s.refreshes + 1 }
  | .forgets =>
    s.turn t = { s with
        plugin := { s.plugin with runner := s.plugin.runner.onConfigChange }
        refreshes := s.refreshes + 1 } ∧
      (s.turn t).plugin.runner.resolver.cache = none
  | .nothing =>
    match t with
    | .request _ =>
      (s.turn t).plugin.settings = s.plugin.settings ∧ (s.turn t).refreshes = s.refreshes
    | _ => s.turn t = s

def effects (config : Option Path) (s : Session) (before : List Turn) : List Turn → List Effect
  | [] => []
  | t :: rest => t.effect config (s.reported before) :: s.effects config (before ++ [t]) rest

theorem effects_append (config : Option Path) (s : Session) (before history : List Turn) (last : Turn) :
    s.effects config before (history ++ [last]) =
      s.effects config before history ++ [last.effect config (s.reported (before ++ history))] := by
  induction history generalizing before with
  | nil => simp [effects]
  | cons t rest ih =>
    rw [List.cons_append, effects, ih, effects, List.cons_append, List.append_assoc]
    rfl

/-! ### Watches -/

theorem notify_of_unwatched {s : Session} {path : Path}
    (unwatched : ∀ w ∈ s.watches, w.path.same path = false) (project : Project) (m : Machine)
    (event : WatchEvent) : s.notify project m path event = s := by
  have none_hit : s.watches.filter (·.path.same path) = [] :=
    List.filter_eq_nil_iff.mpr fun w member => by simp [unwatched w member]
  rw [notify, none_hit]
  rfl

theorem filter_same {watches : List Watch} {w : Watch} {path : Path}
    (once : watches.Pairwise fun v w => v.path.same w.path = false) (member : w ∈ watches)
    (same : w.path.same path = true) : watches.filter (·.path.same path) = [w] := by
  induction watches with
  | nil => contradiction
  | cons v rest ih =>
    obtain ⟨apart, once⟩ := List.pairwise_cons.mp once
    have apart_of (u : Watch) (later : u ∈ rest) (v_same : v.path.same path = true) :
        u.path.same path = false := by
      have different := apart u later
      rw [Path.same_iff] at v_same
      simp only [Path.same, v_same] at different ⊢
      simpa [eq_comm] using different
    rcases List.mem_cons.mp member with rfl | later
    · have none_later : rest.filter (·.path.same path) = [] :=
        List.filter_eq_nil_iff.mpr fun u later => by simp [apart_of u later same]
      simp [same, none_later]
    · have other : v.path.same path = false := by
        rw [Bool.eq_false_iff]
        intro v_same
        rw [apart_of w later v_same] at same
        contradiction
      rw [List.filter_cons_of_neg (by simp [other]), ih once later]

theorem notify_of_watched {s : Session} {w : Watch} {path : Path}
    (once : s.watches.Pairwise fun v w => v.path.same w.path = false) (member : w ∈ s.watches)
    (same : w.path.same path = true) (project : Project) (m : Machine) (event : WatchEvent) :
    s.notify project m path event = s.serve (s.plugin.onWatch project m w.kind path event) := by
  rw [notify, filter_same once member same]
  rfl

end Session

namespace Plugin

theorem diagnosticsFor_watches (p : Plugin) (c : DiagnosticsCall) :
    (p.diagnosticsFor c).plugin.watched = (p.watchConfig (p.reported? c)).1.watched ∧
      (p.diagnosticsFor c).registered = (p.watchConfig (p.reported? c)).2 := by
  cases runs : p.runs c with
  | false =>
    obtain ⟨-, watched, registered⟩ := diagnosticsFor_of_not_runs runs
    simp only [reported?, runs, watched, registered]
    exact ⟨rfl, rfl⟩
  | true =>
    obtain ⟨-, watched, registered⟩ := diagnosticsFor_of_runs runs
    have reports : p.reported? c = if p.ending c = .linted then p.resolvedPath? c else none :=
      (if_pos runs).trans (Runner.pass_configPath p.runner c.toolchain c.machine (p.passCall c))
    rw [reports]
    exact ⟨watched, registered⟩

theorem diagnosticsFor_refreshes (p : Plugin) (c : DiagnosticsCall) :
    (p.diagnosticsFor c).refreshes = 0 := by
  rw [diagnosticsFor_eq, lintDiagnostics_eq, lint_eq]
  split
  · rfl
  · split
    · rfl
    · split
      · rfl
      · cases passed : (p.report c).result <;> simp only [passed]

end Plugin

namespace Session

/-- What holds between a plugin and its host: the host has each watch once, the one on the project
configuration and those on the lint configuration files that are known, and no other. -/
structure Sound (config : Option Path) (known : List Path) (s : Session) : Prop where
  watched : s.plugin.watched = s.watches.map (·.path)
  once : s.watches.Pairwise fun v w => v.path.same w.path = false
  project : ∀ path, config = some path → ⟨path, .projectConfig⟩ ∈ s.watches
  lint : ∀ path ∈ known, ∃ w ∈ s.watches, w.kind = .lintConfig ∧ w.path.same path = true
  meant : ∀ w ∈ s.watches, w.kind = .projectConfig ∧ config = some w.path ∨
    w.kind = .lintConfig ∧ w.path ∈ known

variable {config : Option Path} {known : List Path} {s : Session}

theorem Sound.isWatching (sound : Sound config known s) (path : Path) :
    s.plugin.isWatching path = s.watches.any (·.path.same path) := by
  rw [Plugin.isWatching, sound.watched, List.any_map]
  rfl

theorem Sound.of_eq (sound : Sound config known s) {s' : Session}
    (watched : s'.plugin.watched = s.plugin.watched) (watches : s'.watches = s.watches) :
    Sound config known s' := by
  obtain ⟨same, once, project, lint, meant⟩ := sound
  exact ⟨by rw [watched, watches, same], by rwa [watches], by rwa [watches], by rwa [watches],
    by rwa [watches]⟩

theorem Sound.more (sound : Sound config known s) {w : Watch} {path : Path} (member : w ∈ s.watches)
    (lint : w.kind = .lintConfig) (same : w.path.same path = true) :
    Sound config (known ++ [path]) s where
  watched := sound.watched
  once := sound.once
  project := sound.project
  lint other other_member := by
    rcases List.mem_append.mp other_member with before | new
    · exact sound.lint other before
    · obtain rfl := List.mem_singleton.mp new
      exact ⟨w, member, lint, same⟩
  meant v v_member := (sound.meant v v_member).imp_right fun ⟨kind, before⟩ =>
    ⟨kind, List.mem_append_left _ before⟩

theorem Sound.watch (sound : Sound config known s) {path : Path}
    (new : ∀ w ∈ s.watches, w.path.same path = false) {s' : Session}
    (watched : s'.plugin.watched = s.plugin.watched ++ [path])
    (watches : s'.watches = s.watches ++ [⟨path, .lintConfig⟩]) :
    Sound config (known ++ [path]) s' where
  watched := by rw [watched, watches, sound.watched, List.map_append]; rfl
  once := by
    rw [watches, List.pairwise_append]
    refine ⟨sound.once, List.pairwise_singleton _ _, fun w member v v_member => ?_⟩
    obtain rfl := List.mem_singleton.mp v_member
    exact new w member
  project other is_config := by
    rw [watches]
    exact List.mem_append_left _ (sound.project other is_config)
  lint other other_member := by
    rw [watches]
    rcases List.mem_append.mp other_member with before | new
    · obtain ⟨w, member, lint, same⟩ := sound.lint other before
      exact ⟨w, List.mem_append_left _ member, lint, same⟩
    · obtain rfl := List.mem_singleton.mp new
      exact ⟨_, List.mem_append_right _ (List.mem_singleton_self _), rfl, Path.same_refl _⟩
  meant w member := by
    rw [watches] at member
    rcases List.mem_append.mp member with before | new
    · exact (sound.meant w before).imp_right fun ⟨kind, earlier⟩ =>
        ⟨kind, List.mem_append_left _ earlier⟩
    · obtain rfl := List.mem_singleton.mp new
      exact Or.inr ⟨rfl, List.mem_append_right _ (List.mem_singleton_self _)⟩

theorem Sound.request (sound : Sound config known s) (c : DiagnosticsCall)
    (apart : ∀ path ∈ s.plugin.reported? c, config.any (·.same path) = false) :
    Sound config (known ++ (s.plugin.reported? c).toList) (s.turn (.request c)) := by
  obtain ⟨watched, registered⟩ := s.plugin.diagnosticsFor_watches c
  have watches : (s.turn (.request c)).watches =
      s.watches ++ (s.plugin.watchConfig (s.plugin.reported? c)).2 := by
    rw [← registered]
    rfl
  cases said : s.plugin.reported? c with
  | none =>
    rw [said] at watched watches
    simp only [Option.toList_none, List.append_nil]
    exact sound.of_eq watched (watches.trans (List.append_nil _))
  | some path =>
    rw [said] at watched watches
    simp only [Plugin.watchConfig, Plugin.ensureWatching, sound.isWatching] at watched watches
    cases watching : s.watches.any (·.path.same path) with
    | false =>
      simp only [watching, Bool.false_eq_true, if_false] at watched watches
      have new : ∀ w ∈ s.watches, w.path.same path = false := by
        simpa using List.any_eq_false.mp watching
      exact sound.watch new watched watches
    | true =>
      simp only [watching, if_true, List.append_nil] at watched watches
      obtain ⟨w, member, same⟩ := List.any_eq_true.mp watching
      rcases sound.meant w member with ⟨-, is_config⟩ | ⟨lint, -⟩
      · have elsewhere := apart path said
        rw [is_config, Option.any_some, same] at elsewhere
        contradiction
      · exact (sound.more member lint same).of_eq watched watches

/-! ### The effect of a turn -/

theorem serve_of_unregistered {α : Type} {served : Served α} (unregistered : served.registered = []) :
    s.serve served = ⟨served.plugin, s.watches, s.refreshes + served.refreshes⟩ := by
  rw [serve, unregistered, List.append_nil]

theorem notify_of_ne_changed {event : WatchEvent} (other : event ≠ .changed) (project : Project)
    (m : Machine) (path : Path) : s.notify project m path event = s := by
  have idle (w : Watch) : s.serve (s.plugin.onWatch project m w.kind path event) = s := by
    cases event with
    | changed => contradiction
    | created => exact serve_of_unregistered rfl
    | deleted => exact serve_of_unregistered rfl
  exact List.foldl_fixed' idle _

theorem Sound.takes_config (sound : Sound config known s) (project : Project) (m : Machine)
    {path : Path} (ours : config.any (·.same path) = true) :
    s.Takes (.event project m path .changed)
      (.ofSettings (projectSettings? m path project.directory)) := by
  obtain ⟨own, is_config, same⟩ : ∃ own, config = some own ∧ own.same path = true := by
    cases config with
    | none => contradiction
    | some own => exact ⟨own, rfl, ours⟩
  have heard := notify_of_watched sound.once (sound.project own is_config) same project m .changed
  cases read : projectSettings? m path project.directory with
  | some settings =>
    rw [projectSettings?_eq_some_iff] at read
    simp only [Plugin.onWatch, read] at heard
    exact heard.trans (serve_of_unregistered rfl)
  | none =>
    have unread (settings : Settings) :
        Settings.ofProjectFile m path project.directory ≠ .ok (some settings) := by
      rw [ne_eq, ← projectSettings?_eq_some_iff, read]
      simp
    have idle : s.plugin.onWatch project m .projectConfig path .changed = ⟨(), s.plugin, m, [], 0, []⟩ := by
      unfold Plugin.onWatch
      cases found : Settings.ofProjectFile m path project.directory with
      | error e => rfl
      | ok settings =>
        cases settings with
        | none => rfl
        | some settings => exact absurd found (unread settings)
    rw [idle] at heard
    exact heard.trans (serve_of_unregistered rfl)

theorem Sound.takes_lint (sound : Sound config known s) (project : Project) (m : Machine) {path : Path}
    (ours : known.any (·.same path) = true) : s.Takes (.event project m path .changed) .forgets := by
  obtain ⟨own, member, own_same⟩ := List.any_eq_true.mp ours
  obtain ⟨w, watched, lint, w_same⟩ := sound.lint own member
  have same : w.path.same path = true := by
    rw [Path.same_iff] at own_same w_same ⊢
    exact w_same.trans own_same
  have heard := notify_of_watched sound.once watched same project m .changed
  rw [lint] at heard
  have left := heard.trans (serve_of_unregistered rfl)
  exact ⟨left, congrArg (·.plugin.runner.resolver.cache) left⟩

theorem Sound.unwatched (sound : Sound config known s) {path : Path}
    (elsewhere : config.any (·.same path) = false) (unknown : known.any (·.same path) = false) :
    ∀ w ∈ s.watches, w.path.same path = false := by
  intro w member
  rcases sound.meant w member with ⟨-, is_config⟩ | ⟨-, is_known⟩
  · simpa [is_config] using elsewhere
  · simpa using List.any_eq_false.mp unknown w.path is_known

theorem Sound.takes_effect (sound : Sound config known s) (t : Turn) :
    s.Takes t (t.effect config known) := by
  cases t with
  | request c =>
    have refreshes : s.refreshes + (s.plugin.diagnosticsFor c).refreshes = s.refreshes := by
      rw [Plugin.diagnosticsFor_refreshes]
      rfl
    exact ⟨(s.plugin.diagnosticsFor_answers c).settings, refreshes⟩
  | set m settings => exact serve_of_unregistered rfl
  | configure project m block =>
    have configured : s.turn (.configure project m block) =
        s.serve (s.plugin.configure project m block) := rfl
    have effect_eq : Turn.effect config known (.configure project m block) =
        .ofSettings (Settings.ofBlock block project.directory).toOption := rfl
    rw [effect_eq]
    cases read : Settings.ofBlock block project.directory with
    | ok settings =>
      simp only [Plugin.configure, read] at configured
      exact configured.trans (serve_of_unregistered rfl)
    | error e =>
      simp only [Plugin.configure, read] at configured
      exact configured.trans (serve_of_unregistered rfl)
  | event project m path event =>
    cases event with
    | created => exact notify_of_ne_changed (by simp) project m path
    | deleted => exact notify_of_ne_changed (by simp) project m path
    | changed =>
      have effect_eq : Turn.effect config known (.event project m path .changed) =
          if config.any (·.same path) then .ofSettings (projectSettings? m path project.directory)
          else if known.any (·.same path) then .forgets
          else .nothing := rfl
      rw [effect_eq]
      cases ours : config.any (·.same path) with
      | true => exact sound.takes_config project m ours
      | false =>
        cases found : known.any (·.same path) with
        | true => exact sound.takes_lint project m found
        | false => exact notify_of_unwatched (sound.unwatched ours found) project m .changed

theorem Sound.turn (sound : Sound config known s) (t : Turn)
    (apart : ∀ path ∈ s.reported? t, config.any (·.same path) = false) :
    Sound config (known ++ (s.reported? t).toList) (s.turn t) := by
  have takes := sound.takes_effect t
  have kept {s' : Session} (left : s.turn t = s') (watched : s'.plugin.watched = s.plugin.watched)
      (watches : s'.watches = s.watches) : Sound config known (s.turn t) := by
    rw [left]
    exact sound.of_eq watched watches
  cases t with
  | request c => exact sound.request c apart
  | _ =>
    simp only [reported?, Option.toList_none, List.append_nil]
    generalize Turn.effect config known _ = effect at takes
    cases effect with
    | replaces settings => exact kept takes rfl rfl
    | forgets => exact kept takes.1 rfl rfl
    | nothing => exact kept takes rfl rfl

/-! ### Histories -/

theorem Takes.settings {t : Turn} {effect : Effect} (takes : s.Takes t effect) :
    (s.turn t).plugin.settings = effect.settings?.getD s.plugin.settings := by
  cases effect with
  | replaces settings =>
    rw [show s.turn t = _ from takes]
    rfl
  | forgets =>
    rw [takes.1]
    rfl
  | nothing =>
    cases t with
    | request c => exact takes.1
    | _ => exact congrArg (·.plugin.settings) takes

theorem Takes.refreshes {t : Turn} {effect : Effect} (takes : s.Takes t effect) :
    (s.turn t).refreshes =
      s.refreshes + (effect.settings?.toList.length + [effect].count .forgets) := by
  cases effect with
  | replaces settings =>
    rw [show s.turn t = _ from takes]
    rfl
  | forgets =>
    rw [takes.1]
    rfl
  | nothing =>
    cases t with
    | request c => exact takes.2
    | _ => exact congrArg (·.refreshes) takes

/-- After a history the settings are those that were taken last, and the host was asked to refresh for
each time that settings were taken and for each time that the runner was told to forget. -/
theorem Sound.after {history : List Turn} (sound : Sound config [] s)
    (apart : ∀ path ∈ s.reported history, config.any (·.same path) = false) :
    let effects := s.effects config [] history
    Sound config (s.reported history) (s.after history) ∧
      (s.after history).plugin.settings =
        (effects.filterMap Effect.settings?).getLast?.getD s.plugin.settings ∧
      (s.after history).refreshes =
        s.refreshes + ((effects.filterMap Effect.settings?).length + effects.count .forgets) := by
  induction history using List.reverseRecOn with
  | nil => exact ⟨sound, rfl, rfl⟩
  | append_singleton history t ih =>
    intro effects
    have effects_eq : effects =
        s.effects config [] history ++ [t.effect config (s.reported history)] :=
      s.effects_append config [] history t
    rw [reported_append_singleton] at apart ⊢
    obtain ⟨before, settings, refreshes⟩ := ih fun path member =>
      apart path (List.mem_append_left _ member)
    have takes := before.takes_effect t
    have step : [t.effect config (s.reported history)].filterMap Effect.settings? =
        (t.effect config (s.reported history)).settings?.toList := by
      cases t.effect config (s.reported history) <;> rfl
    have new : ∀ path ∈ (s.after history).reported? t, config.any (·.same path) = false :=
      fun path member => apart path (List.mem_append_right _ (by simpa using member))
    rw [effects_eq, after_append, List.filterMap_append, step, List.count_append, takes.settings,
      takes.refreshes, settings, refreshes]
    refine ⟨before.turn t new, ?_, ?_⟩
    · cases (t.effect config (s.reported history)).settings? <;> simp
    · simp only [List.length_append]
      omega

end Session

theorem Plugin.ofProject_sound {project : Project} {m : Machine} {plugin : Plugin}
    {registered : List Watch} (built : Plugin.ofProject project m = .ok (plugin, registered)) :
    Session.Sound project.configPath [] ⟨plugin, registered, 0⟩ ∧
      plugin.settings = (project.configPath.bind fun path =>
        projectSettings? m path project.directory).getD .standard := by
  unfold ofProject at built
  cases config : project.configPath with
  | none =>
    simp only [config, Except.ok.injEq, Prod.mk.injEq] at built
    obtain ⟨rfl, rfl⟩ := built
    exact ⟨⟨rfl, .nil, by simp, by simp, by simp⟩, rfl⟩
  | some path =>
    cases read : Settings.ofProjectFile m path project.directory with
    | error e => simp [config, read] at built
    | ok settings =>
      have watching : (new (settings.getD .standard)).watchProject project =
          ({ new (settings.getD .standard) with watched := [path] }, [⟨path, .projectConfig⟩]) := by
        simp only [watchProject, config]
        rfl
      simp only [config, read, watching, Except.ok.injEq, Prod.mk.injEq] at built
      obtain ⟨rfl, rfl⟩ := built
      have settings_eq : projectSettings? m path project.directory = settings := by
        cases settings with
        | some settings => exact projectSettings?_eq_some_iff.mpr read
        | none =>
          rw [Option.eq_none_iff_forall_ne_some]
          intro settings found
          simp [projectSettings?_eq_some_iff, read] at found
      refine ⟨⟨rfl, List.pairwise_singleton _ _, by simp, by simp, by simp⟩, ?_⟩
      rw [Option.bind_some, settings_eq]
      rfl

/-- A plugin that is built from a project configuration, and all that can follow as long as no request
uses the project configuration to lint. No path is watched twice. The settings are those that were
taken last: those the plugin was built with, given ones, or those of a block or a project configuration
without error. The host is asked to refresh once for each of the later ones and once for each change of
a lint configuration, on which the plugin forgets what it has read, and else a turn changes neither
settings nor, unless it is a request, anything. -/
theorem session_effects {project : Project} {m : Machine} {plugin : Plugin} {registered : List Watch}
    (built : Plugin.ofProject project m = .ok (plugin, registered)) {history : List Turn}
    (apart : ∀ path ∈ Session.reported ⟨plugin, registered, 0⟩ history,
      project.configPath.any (·.same path) = false) :
    let start : Session := ⟨plugin, registered, 0⟩
    let effects := start.effects project.configPath [] history
    plugin.settings = (project.configPath.bind fun path =>
        projectSettings? m path project.directory).getD .standard ∧
      ((start.after history).watches.Pairwise fun v w => v.path.same w.path = false) ∧
      (start.after history).plugin.settings =
        (effects.filterMap Effect.settings?).getLast?.getD plugin.settings ∧
      (start.after history).refreshes =
        (effects.filterMap Effect.settings?).length + effects.count .forgets ∧
      ∀ before t later, history = before ++ t :: later →
        (start.after before).Takes t (t.effect project.configPath (start.reported before)) := by
  intro start effects
  obtain ⟨sound, initial⟩ := Plugin.ofProject_sound built
  obtain ⟨left, settings, refreshes⟩ := sound.after apart
  refine ⟨initial, left.once, settings, refreshes.trans (Nat.zero_add _), ?_⟩
  rintro before t later rfl
  have earlier : ∀ path ∈ start.reported before, project.configPath.any (·.same path) = false := by
    intro path member
    apply apart
    rw [Session.reported_append]
    exact List.mem_append_left _ member
  exact (sound.after earlier).1.takes_effect t

def Machine.configured (block : List (String × Json)) : Machine :=
  let plugins := Json.arr [.obj (("name", .str "lintweave") :: block)]
  let text := (Json.obj [("compilerOptions", .obj [("plugins", plugins)])]).compact
  { Machine.simple with
    files := Machine.simple.files.put ["w", "tsconfig.json"] (.file (.text text)) }

def Project.configured : Project := { Project.blank with configPath := some ⟨"/w/tsconfig.json"⟩ }

/-- Settings are given, a block with an error is not taken, the host tells of a change of the lint
configuration that a request has used, and of the project configuration that it is gone, that it has no
block without error, and that it has one. -/
theorem session_effects_configured :
    let project := Project.configured
    let trusting := Machine.configured [("allowWorkspaceLibraryExecution", .bool true)]
    let invalid := Machine.configured [("jsEnable", .str "yes")]
    let lintConfig : Path := ⟨"/w/node_modules/tslint/tslint.json"⟩
    let history : List Turn := [.request (Plugin.simpleCall []),
      .event project trusting lintConfig .changed, .set trusting .standard,
      .configure project trusting (.obj [("jsEnable", .str "yes")]),
      .event project trusting ⟨"/w/tsconfig.json"⟩ .deleted,
      .event project invalid ⟨"/w/tsconfig.json"⟩ .changed,
      .event project trusting ⟨"/w/tsconfig.json"⟩ .changed]
    ∃ plugin registered, Plugin.ofProject project trusting = .ok (plugin, registered) ∧
      let start : Session := ⟨plugin, registered, 0⟩
      start.reported history = [lintConfig] ∧
        (start.after history).plugin.settings = Plugin.trusting ∧
        (start.after history).refreshes = 3 := by
  intro project trusting invalid lintConfig history
  have settings : projectSettings? trusting ⟨"/w/tsconfig.json"⟩ project.directory =
      some Plugin.trusting := by decide +kernel
  -- The plugin and its watch go by names, so that nothing but the kernel runs the history.
  obtain ⟨plugin, plugin_eq⟩ : ∃ plugin : Plugin,
      plugin = { Plugin.new Plugin.trusting with watched := [⟨"/w/tsconfig.json"⟩] } := ⟨_, rfl⟩
  obtain ⟨registered, registered_eq⟩ : ∃ registered : List Watch,
      registered = [⟨⟨"/w/tsconfig.json"⟩, .projectConfig⟩] := ⟨_, rfl⟩
  have built : Plugin.ofProject project trusting = .ok (plugin, registered) := by
    have config : project.configPath = some ⟨"/w/tsconfig.json"⟩ := rfl
    simp only [Plugin.ofProject, config, projectSettings?_eq_some_iff.mp settings]
    rw [plugin_eq, registered_eq]
    rfl
  have reported : Session.reported ⟨plugin, registered, 0⟩ history = [lintConfig] := by
    rw [plugin_eq, registered_eq]
    decide +kernel
  have effects : Session.effects project.configPath ⟨plugin, registered, 0⟩ [] history =
      [.nothing, .forgets, .replaces .standard, .nothing, .nothing, .nothing,
        .replaces Plugin.trusting] := by
    rw [plugin_eq, registered_eq]
    decide +kernel
  have apart : ∀ path ∈ Session.reported ⟨plugin, registered, 0⟩ history,
      project.configPath.any (·.same path) = false := by
    rw [reported]
    decide
  obtain ⟨-, -, last, refreshes, -⟩ := session_effects built apart
  rw [effects] at last refreshes
  exact ⟨plugin, registered, built, reported, last, refreshes⟩

end LintBridge
