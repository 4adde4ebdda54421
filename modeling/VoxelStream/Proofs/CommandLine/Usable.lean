import VoxelStream.CommandLine.Command
import VoxelStream.Proofs.Stream.Retention
import VoxelStream.Proofs.Stream.Schedule

/-!
# Usable configurations

A configuration is judged where a file is loaded, where options override it, and where a world is
made of it; a tree is also made when the streamer of a world was lost, from the configuration that
the world keeps. These are the same checks each time (`Config.Usable`). Only configurations that
pass get as far as a world, and with one that does no start ever fails for its configuration
(`Config.usable_enough`).
-/

namespace VoxelStream

variable {γ σ : Type}

namespace Config

/-- The configuration passes all checks. -/
def Usable (c : Config) : Prop := ∃ tree, c.validate = .ok tree

variable {c : Config}

/-- There is a tree for the configuration, and so there is a streamer. -/
theorem Usable.exists_streamer (h : c.Usable) : ∃ s, Streamer.ofConfig c = .ok s := by
  obtain ⟨tree, htree⟩ := h
  obtain ⟨hlevel, -⟩ := validate_eq_ok_iff.1 htree
  rw [Streamer.ofConfig, hlevel]
  exact ⟨_, rfl⟩

/-- What is checked and then returned is usable. -/
theorem validated_eq_ok_iff {c' : Config} :
    (do let _ ← c.validate; return c) = Except.ok c' ↔ c' = c ∧ c'.Usable := by
  have hchecked : (do let _ ← c.validate; return c) = Except.ok c' ↔ c = c' ∧ c.Usable := by
    unfold Usable
    cases c.validate with
    | error e => simp [bind, Except.bind]
    | ok tree => simp [bind, Except.bind, pure, Except.pure]
  rw [hchecked]
  constructor
  · rintro ⟨rfl, h⟩
    exact ⟨rfl, h⟩
  · rintro ⟨rfl, h⟩
    exact ⟨rfl, h⟩

/-- A file is loaded if it is read and its configuration is usable. -/
theorem load_eq_ok_iff {file : FileContents} :
    load file = .ok c ↔ read file = .ok c ∧ c.Usable := by
  unfold load
  cases read file with
  | error e => simp [bind, Except.bind]
  | ok c' =>
    have hsame : Except.ok (ε := ConfigError) c' = .ok c ↔ c = c' := by
      rw [Except.ok.injEq, eq_comm]
    rw [hsame]
    exact validated_eq_ok_iff

end Config

/-! ## Options -/

namespace CommandLine.ConfigOptions

/-- The options start from this configuration: that of their file, which has to be usable by itself,
or the defaults. -/
def StartsFrom (o : ConfigOptions) (files : String → FileContents) (base : Config) : Prop :=
  match o.file with
  | none => base = {}
  | some path => Config.read (files path) = .ok base ∧ base.Usable

/-- Each field of `c` is what the options say it is, or else what it was in `base`. -/
structure Overrides (o : ConfigOptions) (base c : Config) : Prop where
  rootLevel : c.rootLevel = o.rootLevel.getD base.rootLevel
  maxRadius : c.maxRadius = o.maxRadius.getD base.maxRadius
  lodFactor_some : ∀ k, o.lodFactor = some k → c.lodFactor = some k
  lodFactor_none : o.lodFactor = none → c.lodFactor = base.lodFactor
  pollMilliseconds : c.pollMilliseconds = base.pollMilliseconds

variable {o : ConfigOptions} {base c : Config}

/-- What the options say replaces what the base says, field by field. -/
theorem overrides_iff : o.Overrides base c ↔ c = o.override base := by
  constructor
  · rintro ⟨hlevel, hradius, hsome, hnone, hpoll⟩
    have hfactor : c.lodFactor = (o.lodFactor <|> base.lodFactor) := by
      cases ho : o.lodFactor with
      | none => exact hnone ho
      | some k => exact hsome k ho
    rw [override, ← hlevel, ← hradius, ← hfactor, ← hpoll]
  · rintro rfl
    exact ⟨rfl, rfl, fun k hk => by rw [override, hk]; rfl, fun hk => by rw [override, hk]; rfl, rfl⟩

/-- A configuration is resolved if it overrides its base and is usable. -/
theorem resolve_eq_ok_iff {files : String → FileContents} : o.resolve files = .ok c ↔
    ∃ base, o.StartsFrom files base ∧ o.Overrides base c ∧ c.Usable := by
  have hoverride (base : Config) :
      (do let _ ← (o.override base).validate; return o.override base) = Except.ok c ↔
        o.Overrides base c ∧ c.Usable := by
    rw [overrides_iff]
    exact Config.validated_eq_ok_iff
  unfold resolve StartsFrom
  cases o.file with
  | none =>
    rw [exists_eq_left]
    exact hoverride {}
  | some path =>
    cases hload : Config.load (files path) with
    | error e =>
      simp only [bind, Except.bind, ← Config.load_eq_ok_iff, hload, reduceCtorEq, false_and,
        exists_false]
    | ok base =>
      simp only [← Config.load_eq_ok_iff, hload, Except.ok.injEq, exists_eq_left']
      exact hoverride base

end CommandLine.ConfigOptions

/-! ## Worlds -/

/-- There is a world for a configuration just if it is usable. -/
theorem World.exists_ofConfig_iff (c : Config) (g : γ) (k : σ) :
    (∃ w, World.ofConfig c g k = .ok w) ↔ c.Usable := by
  cases hvalid : c.validate with
  | error e => simp [ofConfig, Config.Usable, hvalid]
  | ok tree =>
    obtain ⟨s, hs⟩ := Config.Usable.exists_streamer ⟨tree, hvalid⟩
    simp [ofConfig, Config.Usable, hvalid, hs]

/-- There is a session for a configuration just if it is usable. -/
theorem Session.exists_ofConfig_iff (c : Config) (g : γ) (k : σ) :
    (∃ x, Session.ofConfig c g k = .ok x) ↔ c.Usable := by
  cases hvalid : c.validate with
  | error e => simp [ofConfig, Config.Usable, hvalid]
  | ok tree =>
    obtain ⟨s, hs⟩ := Config.Usable.exists_streamer ⟨tree, hvalid⟩
    simp [ofConfig, Config.Usable, hvalid, hs]

variable {G : Generator γ} {K : Sink σ}

/-- However the threads take turns, a start is refused only since there is a worker. -/
theorem Session.Reached.takeStreamer_eq_error_iff {c : Config} {g : γ} {k : σ}
    {events : List Event} {x : Session γ σ} (h : x.Reached G K c g k events) {e : StreamError} :
    (x.takeStreamer K).1 = .error e ↔ e = .alreadyRunning ∧ x.handle ≠ none := by
  obtain ⟨s₀, hs₀, hfollows⟩ := h.follows
  unfold takeStreamer
  rw [hfollows.config_eq, hs₀]
  cases x.handle with
  | some i => simp [eq_comm]
  | none => cases x.idle <;> simp [Except.mapError]

/-- The only refusal of a start is that there is a worker already. -/
theorem World.start_eq_error_iff {c : Config} {g : γ} {k : σ} {w : World γ σ}
    (h : World.ofConfig c g k = .ok w) (l : List World.Call) {v : View} {e : StreamError} :
    ((w.calls G K l).start G K v).1 = .error (.stream e) ↔
      e = .alreadyRunning ∧ (w.calls G K l).isRunning = true := by
  obtain ⟨events, x, hreached, hdepicts⟩ := Session.exists_calls (G := G) (K := K) h l
  obtain ⟨s₀, hs₀, hfollows⟩ := hreached.follows
  have hconfig : (w.calls G K l).config = c := hdepicts.config_eq.symm.trans hfollows.config_eq
  generalize w.calls G K l = u at hconfig
  unfold start launch takeStreamer isRunning
  cases hlife : u.lifecycle with
  | stopped s =>
    dsimp only
    rcases s.pass G K v u.generator u.sink with ⟨_ | r, g', k'⟩ <;> simp [Lifecycle.hasWorker]
  | lost =>
    rw [hconfig, hs₀]
    dsimp only [Except.mapError]
    rcases s₀.pass G K v u.generator (K.clear u.sink) with ⟨_ | r, g', k'⟩ <;>
      simp [Lifecycle.hasWorker]
  | running s | dead => simp [Lifecycle.hasWorker, eq_comm]

/-- Only usable configurations get as far as a tree, and a usable one is enough.

Options resolve to a configuration if what they start from is usable and still is with their values
in it, and then to that. A world, or a session with all its threads, is made of a configuration if
this is usable. From then on the only reason to refuse a start is that there is a worker, whatever
was called before and however the threads took turns, also if the streamer is lost and a new one
has to be made. -/
theorem Config.usable_enough (G : Generator γ) (K : Sink σ) (g : γ) (k : σ) :
    (∀ (o : CommandLine.ConfigOptions) (files : String → FileContents) (c : Config),
      o.resolve files = .ok c ↔
        ∃ base, o.StartsFrom files base ∧ o.Overrides base c ∧ c.Usable) ∧
    (∀ c : Config, ((∃ w, World.ofConfig c g k = .ok w) ↔ c.Usable) ∧
      ((∃ x, Session.ofConfig c g k = .ok x) ↔ c.Usable)) ∧
    (∀ (c : Config) (w : World γ σ), World.ofConfig c g k = .ok w → ∀ (l : List World.Call) v e,
      ((w.calls G K l).start G K v).1 = .error (.stream e) ↔
        e = .alreadyRunning ∧ (w.calls G K l).isRunning = true) ∧
    ∀ (c : Config) (events : List Event) (x : Session γ σ), x.Reached G K c g k events → ∀ e,
      (x.takeStreamer K).1 = .error e ↔ e = .alreadyRunning ∧ x.handle ≠ none :=
  ⟨fun _ _ _ => CommandLine.ConfigOptions.resolve_eq_ok_iff,
    fun c => ⟨World.exists_ofConfig_iff c g k, Session.exists_ofConfig_iff c g k⟩,
    fun _ _ h l _ _ => World.start_eq_error_iff h l,
    fun _ _ _ h _ => h.takeStreamer_eq_error_iff⟩

/-- A file that gives a depth, with a radius that overrides the default one; a start after a stop;
and a start after the streamer was lost, with a retained set that is not empty. -/
theorem Config.usable_enough_lost :
    ∃ (w : World Unit Retained) (x : Session Nat Retained) (s : Streamer),
      CommandLine.ConfigOptions.resolve { file := some "world.json", maxRadius := some 3 }
        (fun _ => .bytes "\x7b\"root_level\":24\x7d".toUTF8) =
          .ok { rootLevel := 24, maxRadius := 3 } ∧
      World.ofConfig {} () .empty = .ok w ∧
      (∀ e, ((w.calls .blank Retained.sink [.start {}, .stop]).start .blank Retained.sink {}).1 ≠
        .error (.stream (.config e))) ∧
      x.Reached .erratic Retained.sink .small 0 .empty (Event.tour.take 45) ∧
      x.streamers = [] ∧ x.shared.sink.nodes = Node.close ∧
      (x.takeStreamer Retained.sink).1 = .ok s := by
  obtain ⟨hresolve, hmade, hworld, -⟩ :=
    Config.usable_enough Generator.blank Retained.sink () .empty
  have hsession := (Config.usable_enough Generator.erratic Retained.sink 0 .empty).2.2.2
  have hdefault : ({} : Config).Usable := ⟨⟨8, by decide, by decide⟩, by decide +kernel⟩
  obtain ⟨w, hw⟩ := (hmade {}).1.2 hdefault
  obtain ⟨x, hx, hlost⟩ := Session.exists_reached (i := 45) (v := .lost) (by simp [Glimpse.tour])
  have hhandle : x.handle = none := congrArg Glimpse.handle hlost
  have htaken : ∃ s, (x.takeStreamer Retained.sink).1 = .ok s := by
    cases htake : (x.takeStreamer Retained.sink).1 with
    | ok s => exact ⟨s, rfl⟩
    | error e => exact absurd hhandle ((hsession _ _ _ hx e).1 htake).2
  obtain ⟨s, hs⟩ := htaken
  have hoverrides : CommandLine.ConfigOptions.Overrides
      { file := some "world.json", maxRadius := some 3 }
      { rootLevel := 24 } { rootLevel := 24, maxRadius := 3 } :=
    CommandLine.ConfigOptions.overrides_iff.2 rfl
  refine ⟨w, x, s, ?_, hw, fun e he => ?_, hx, List.map_eq_nil_iff.1 (congrArg Glimpse.shown hlost),
    congrArg Glimpse.retained hlost, hs⟩
  · refine (hresolve _ _ _).2 ⟨{ rootLevel := 24 }, ⟨by decide +kernel,
      ⟨24, by decide, by decide⟩, by decide +kernel⟩, hoverrides,
      ⟨24, by decide, by decide⟩, by decide +kernel⟩
  · cases ((hworld _ w hw _ _ _).1 he).1

end VoxelStream
