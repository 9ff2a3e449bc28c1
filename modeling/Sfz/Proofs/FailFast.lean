import Sfz.CommandLine
import Sfz.Proofs.CheckSwitches
import Sfz.Proofs.FindingPlaces
import Sfz.Proofs.Outcome

/-!
Failing fast shortens what is printed and keeps the verdict. A run that fails fast gives the reports of
the full run up to the first one with an error, so its lines are the first lines of the full run, and its
exit code is the same.
-/

namespace Sfz

inductive UpToError : List (Path × Report) → List (Path × Report) × Bool → Prop
  | stopped (before : List (Path × Report)) (x : Path × Report) (after : List (Path × Report))
    (clean : ∀ y ∈ before, y.2.hasErrors = false) (error : x.2.hasErrors = true) :
    UpToError (before ++ x :: after) (before ++ [x], true)
  | complete (all : List (Path × Report)) (clean : ∀ y ∈ all, y.2.hasErrors = false) :
    UpToError all (all, false)

namespace UpToError

variable {all given : List (Path × Report)} {stopped : Bool}

theorem cons {x : Path × Report} (hx : x.2.hasErrors = false) {run : List (Path × Report) × Bool}
    (h : UpToError all run) : UpToError (x :: all) (x :: run.1, run.2) := by
  cases h with
  | stopped before y after hbefore hy =>
    exact stopped (x :: before) y after (List.forall_mem_cons.mpr ⟨hx, hbefore⟩) hy
  | complete all hall => exact complete (x :: all) (List.forall_mem_cons.mpr ⟨hx, hall⟩)

theorem isPrefix (h : UpToError all (given, stopped)) : given <+: all := by
  cases h with
  | stopped before x after _ _ => exact ⟨after, by simp⟩
  | complete all _ => exact List.prefix_refl all

theorem any_hasErrors (h : UpToError all (given, stopped)) :
    given.any (fun x => x.2.hasErrors) = all.any (fun x => x.2.hasErrors) := by
  cases h with
  | stopped before x after _ hx => simp [hx]
  | complete all _ => rfl

end UpToError

def printed (given : List (Path × Report)) : List Finding :=
  given.flatMap (fun report => report.2.remaining)

theorem printed_isPrefix {given all : List (Path × Report)} (h : given <+: all) :
    printed given <+: printed all := by
  obtain ⟨others, rfl⟩ := h
  exact ⟨printed others, List.flatMap_append.symm⟩

theorem any_printed (given : List (Path × Report)) :
    (printed given).any Finding.isError = given.any (fun x => x.2.hasErrors) :=
  List.any_flatMap

namespace FileTree

variable (t : FileTree) (r : Registry) (settings : Settings)

def reports (files : List Path) : List (Path × Report) :=
  files.map (fun p => (p, t.lint r settings p))

theorem lint_failFast (failFast : Bool) (root : Path) :
    t.lint r { settings with failFast } root = t.lint r settings root := by
  have hcheck : ∀ d : Document, d.check t r { settings with failFast } = d.check t r settings := by
    intro d
    unfold Document.check Document.checkSamples
    rw [Document.sampleFindings_congr (a := { settings with failFast }) (b := settings) rfl]
    rfl
  unfold lint findings
  simp only [hcheck]

theorem lintAll_stopped (files : List Path) : t.lintAll r settings true files = ([], true) := by
  cases files <;> rfl

theorem lintAll_full (files : List Path) :
    t.lintAll r { settings with failFast := false } false files = (t.reports r settings files, false) := by
  induction files with
  | nil => rfl
  | cons p files ih =>
    rw [lintAll, Bool.false_and, ih, lint_failFast]
    rfl

theorem lintAll_fast (files : List Path) :
    UpToError (t.reports r settings files) (t.lintAll r { settings with failFast := true } false files) := by
  induction files with
  | nil => exact .complete [] (fun y hy => absurd hy List.not_mem_nil)
  | cons p files ih =>
    have hcons : t.reports r settings (p :: files) =
        (p, t.lint r settings p) :: t.reports r settings files := rfl
    rw [lintAll, Bool.true_and, hcons, lint_failFast t r settings true]
    cases he : (t.lint r settings p).hasErrors with
    | true =>
      rw [lintAll_stopped]
      exact .stopped [] _ _ (fun y hy => absurd hy List.not_mem_nil) he
    | false => exact ih.cons he

end FileTree

namespace CommandLine

section Reading

def Progress.map {σ : Type} (lift : σ → σ) (p : Progress σ) : Progress σ :=
  ⟨lift p.state, p.pending⟩

variable {σ : Type} {g : Grammar σ} {good : σ → Prop} {lift : σ → σ}

def Carries (good : σ → Prop) (lift : σ → σ) (step : Progress σ → Except UsageError (Progress σ)) : Prop :=
  ∀ p q, step p = .ok q → good q.state → good p.state ∧ step (p.map lift) = .ok (q.map lift)

theorem Carries.bind {first second : Progress σ → Except UsageError (Progress σ)}
    (hf : Carries good lift first) (hs : Carries good lift second) :
    Carries good lift (fun p => first p >>= second) := by
  intro p q h hq
  obtain ⟨m, hm, hmq⟩ := bind_eq_ok.mp h
  obtain ⟨hgood, hlift⟩ := hs m q hmq hq
  obtain ⟨hp, hpm⟩ := hf p m hm hgood
  exact ⟨hp, bind_eq_ok.mpr ⟨_, hpm, hlift⟩⟩

variable (h : ∀ item s s', g.accept item s = .ok s' → good s' →
  good s ∧ g.accept item (lift s) = .ok (lift s'))
include h

theorem settle_lift {p : Progress σ} {s : σ} (hp : p.settle g = .ok s) (hs : good s) :
    good p.state ∧ (p.map lift).settle g = .ok (lift s) := by
  obtain ⟨state, pending⟩ := p
  cases pending with
  | none =>
    obtain rfl := Except.ok.inj hp
    exact ⟨hs, rfl⟩
  | some item => exact h item state s hp hs

theorem carries_add (item : Item) : Carries good lift (fun p => p.add g item) := by
  intro p q hq hgood
  obtain ⟨s, hs, hq⟩ := bind_eq_ok.mp hq
  obtain ⟨s', hs', hq⟩ := bind_eq_ok.mp hq
  obtain rfl := pure_eq_ok.mp hq
  obtain ⟨hs₁, haccept⟩ := h item s s' hs' hgood
  obtain ⟨hp, hsettle⟩ := settle_lift h hs hs₁
  exact ⟨hp, bind_eq_ok.mpr ⟨_, hsettle, bind_eq_ok.mpr ⟨_, haccept, rfl⟩⟩⟩

theorem carries_await (item : Item) : Carries good lift (fun p => p.await g item) := by
  intro p q hq hgood
  obtain ⟨s, hs, hq⟩ := bind_eq_ok.mp hq
  obtain rfl := pure_eq_ok.mp hq
  obtain ⟨hp, hsettle⟩ := settle_lift h hs hgood
  exact ⟨hp, bind_eq_ok.mpr ⟨_, hsettle, rfl⟩⟩

theorem carries_readShort (letters : List Char) : Carries good lift (fun p => readShort g p letters) := by
  induction letters with
  | nil =>
    intro p q hq hgood
    obtain rfl := Except.ok.inj hq
    exact ⟨hgood, rfl⟩
  | cons c cs ih =>
    intro p q hq hgood
    change readShort g p (c :: cs) = .ok q at hq
    unfold readShort at hq
    split at hq
    next => exact absurd ‹_› (List.cons_ne_nil _ _)
    next heq =>
      obtain ⟨rfl, rfl⟩ := List.cons.inj heq
      exact (carries_add h _).bind ih _ _ hq hgood
    next => exact absurd hq nofun
    next => exact absurd hq nofun

theorem carries_awaitAll (texts : List String) :
    Carries good lift (fun p => texts.foldlM (fun p text => p.await g (.argument text)) p) := by
  induction texts with
  | nil =>
    intro p q hq hgood
    obtain rfl := pure_eq_ok.mp hq
    exact ⟨hgood, rfl⟩
  | cons text texts ih => exact (carries_await h (.argument text)).bind ih

/-- What is done with an argument: it ends the reading with an error, or the reading goes on after a step
that the arguments alone decide on. -/
theorem read_cons (arg : String) (args : List String) :
    (∃ error : Progress σ → UsageError, ∀ p, read g true p (arg :: args) = .error (error p)) ∨
    ∃ step args', args'.length ≤ args.length ∧ Carries good lift step ∧
      ∀ p, read g true p (arg :: args) = step p >>= fun q => read g true q args' := by
  cases hshape : shapeOf arg with
  | separator =>
    refine .inr ⟨_, [], Nat.zero_le _, carries_awaitAll h args, fun p => ?_⟩
    simp only [read, hshape]
    rfl
  | plain =>
    refine .inr ⟨_, args, le_refl _, carries_await h (.argument arg), fun p => ?_⟩
    simp only [read, hshape, if_true]
  | short letters =>
    refine .inr ⟨_, args, le_refl _, carries_readShort h letters, fun p => ?_⟩
    simp only [read, hshape]
  | long name value =>
    cases hname : g.options.lookup name with
    | none =>
      cases value with
      | none => exact .inl ⟨_, fun p => by simp only [read, hshape, hname]; rfl⟩
      | some v => exact .inl ⟨_, fun p => by simp only [read, hshape, hname]; rfl⟩
    | some arity =>
      cases value with
      | none =>
        cases arity with
        | flag =>
          refine .inr ⟨_, args, le_refl _, carries_add h (.option name []), fun p => ?_⟩
          simp only [read, hshape, hname]
        | single =>
          cases args with
          | nil => exact .inl ⟨_, fun p => by simp only [read, hshape, hname]; rfl⟩
          | cons v args =>
            by_cases hv : isValue v
            · refine .inr ⟨_, args, Nat.le_succ _, carries_await h (.option name [v]), fun p => ?_⟩
              simp only [read, hshape, hname, hv, if_true]
            · exact .inl ⟨_, fun p => by simp only [read, hshape, hname, hv]; rfl⟩
        | many =>
          by_cases hv : (args.takeWhile isValue).isEmpty
          · exact .inl ⟨_, fun p => by simp only [read, hshape, hname, hv]; rfl⟩
          · refine .inr ⟨_, args.dropWhile isValue, (List.dropWhile_sublist _).length_le,
              carries_await h (.option name (args.takeWhile isValue)), fun p => ?_⟩
            simp only [read, hshape, hname, hv]
            rfl
      | some v =>
        by_cases hflag : arity = .flag
        · subst hflag
          exact .inl ⟨_, fun p => by simp only [read, hshape, hname]; rfl⟩
        · refine .inr ⟨_, args, le_refl _, carries_add h (.option name [v]), fun p => ?_⟩
          cases arity with
          | flag => exact absurd rfl hflag
          | single => simp only [read, hshape, hname]
          | many => simp only [read, hshape, hname]

theorem read_lift {p q : Progress σ} {args rest : List String} (hread : read g true p args = .ok (q, rest))
    (hq : good q.state) : good p.state ∧ read g true (p.map lift) args = .ok (q.map lift, rest) := by
  -- the rest comes first: only the state at the end is known to be good
  induction hn : args.length using Nat.strongRecOn generalizing p args with
  | ind n ih =>
    cases args with
    | nil =>
      rw [read] at hread ⊢
      obtain ⟨rfl, rfl⟩ := Prod.mk.inj (Except.ok.inj hread)
      exact ⟨hq, rfl⟩
    | cons arg args =>
      rcases read_cons h arg args with ⟨error, herror⟩ | ⟨step, args', hlen, hcarries, hstep⟩
      · rw [herror] at hread
        cases hread
      · rw [hstep] at hread ⊢
        obtain ⟨m, hm, hrest⟩ := bind_eq_ok.mp hread
        have hlt : args'.length < n := by
          rw [List.length_cons] at hn
          omega
        obtain ⟨hgood, hlift⟩ := ih args'.length hlt hrest rfl
        obtain ⟨hp, hpm⟩ := hcarries p m hm hgood
        exact ⟨hp, bind_eq_ok.mpr ⟨_, hpm, hlift⟩⟩

theorem readAll_lift {s s' : σ} {args : List String} (hread : readAll g s args = .ok s') (hs : good s') :
    readAll g (lift s) args = .ok (lift s') := by
  obtain ⟨⟨q, rest⟩, hq, hsettle⟩ := bind_eq_ok.mp hread
  obtain ⟨hgood, hlast⟩ := settle_lift h hsettle hs
  exact bind_eq_ok.mpr ⟨_, (read_lift h hq hgood).2, hlast⟩

end Reading

namespace LintArguments

def fast (s : LintArguments) : LintArguments :=
  { s with failFast := true }

theorem accept_fast (item : Item) (s s' : LintArguments) (h : accept item s = .ok s')
    (hs : s'.failFast = false) : s.failFast = false ∧ accept item s.fast = .ok s'.fast := by
  have hset : ∀ {α : Type} {value : Except UsageError α} {set set' : α → LintArguments},
      (do return set (← value)) = .ok s' → (∀ a, (set a).failFast = s.failFast ∧ set' a = (set a).fast) →
      s.failFast = false ∧ (do return set' (← value)) = .ok s'.fast := by
    intro α value set set' hrun hfast
    obtain ⟨a, ha, hrun⟩ := bind_eq_ok.mp hrun
    obtain rfl := pure_eq_ok.mp hrun
    obtain ⟨hsame, hset'⟩ := hfast a
    exact ⟨hsame.symm.trans hs, bind_eq_ok.mpr ⟨a, ha, congrArg Except.ok hset'⟩⟩
  unfold accept at h
  split at h
  · rw [accept]
    split at h
    next => exact absurd h nofun
    next hstart =>
      rw [if_neg (show ¬ s.fast.start.isSome = true from hstart)]
      exact hset h (fun _ => ⟨rfl, rfl⟩)
  · exact hset h (fun _ => ⟨rfl, rfl⟩)
  · exact hset h (fun _ => ⟨rfl, rfl⟩)
  · exact hset h (fun _ => ⟨rfl, rfl⟩)
  · exact hset h (fun _ => ⟨rfl, rfl⟩)
  · -- the flag itself cannot have been given, as it would be raised at the end
    obtain ⟨flag, hflag, h⟩ := bind_eq_ok.mp h
    obtain rfl := pure_eq_ok.mp h
    obtain rfl : flag = false := hs
    unfold raise at hflag
    split at hflag
    · exact absurd hflag nofun
    · exact absurd hflag nofun
  · rw [accept]
    · exact hset h (fun _ => ⟨rfl, rfl⟩)
    all_goals assumption

end LintArguments

theorem parse_lint (args : List String) : parse ("lint" :: args) = do
    let s ← readAll LintArguments.grammar {} args
    let command ← s.command
    return ⟨s.globals.table.or none, command⟩ := by
  have hread : read Globals.grammar false { state := {} } ("lint" :: args) =
      .ok (({ state := {} } : Progress Globals), "lint" :: args) := by
    rw [read.eq_def]
    rfl
  rw [parse, hread]
  rfl

theorem readAll_failFast (args : List String) : readAll LintArguments.grammar {} ("--fail-fast" :: args) =
    readAll LintArguments.grammar (LintArguments.fast {}) args := by
  unfold readAll
  rw [read]
  rfl

theorem parse_failFast {args : List String} {table : Option Path} {start : Path} {format : Finding.Format}
    {settings : Settings}
    (h : parse ("lint" :: args) = .ok ⟨table, .lint start format { settings with failFast := false }⟩) :
    parse ("lint" :: "--fail-fast" :: args) =
      .ok ⟨table, .lint start format { settings with failFast := true }⟩ := by
  rw [parse_lint] at h ⊢
  obtain ⟨s, hs, h⟩ := bind_eq_ok.mp h
  obtain ⟨command, hcommand, h⟩ := bind_eq_ok.mp h
  obtain ⟨rfl, rfl⟩ := Invocation.mk.inj (pure_eq_ok.mp h)
  unfold LintArguments.command at hcommand
  split at hcommand
  next => exact absurd hcommand nofun
  next p hp =>
    obtain ⟨rfl, rfl, hsettings⟩ := Command.lint.inj (Except.ok.inj hcommand)
    obtain ⟨hb, hv, hc, hslow⟩ := Settings.mk.inj hsettings
    have hfast := readAll_lift LintArguments.accept_fast hs hslow
    rw [readAll_failFast, hfast]
    refine bind_eq_ok.mpr ⟨_, rfl, bind_eq_ok.mpr ⟨_, ?_, rfl⟩⟩
    simp [LintArguments.command, LintArguments.fast, hp, hb, hv, hc]

structure Outcome.Shows (o : Outcome) (format : Finding.Format) (findings : List Finding) : Prop where
  lines : o.lines = findings.map (Finding.render format)
  one : o.code = 1 ↔ ∃ f ∈ findings, f.severity = .error
  zero : o.code = 0 ↔ ∀ f ∈ findings, f.severity ≠ .error

variable (t : FileTree) (r : Registry) (files : List Path) (format : Finding.Format) (settings : Settings)

theorem shows_lintOutcome : (lintOutcome t r files format settings).Shows format
    (printed (t.lintAll r settings false files).1) := by
  have hcode : (lintOutcome t r files format settings).code =
      if (printed (t.lintAll r settings false files).1).any Finding.isError then 1 else 0 := rfl
  cases hany : (printed (t.lintAll r settings false files).1).any Finding.isError with
  | true =>
    rw [hany, if_pos rfl] at hcode
    obtain ⟨f, hf, herror⟩ := List.any_eq_true.mp hany
    have herror := eq_of_beq herror
    refine ⟨rfl, iff_of_true hcode ⟨f, hf, herror⟩, iff_of_false ?_ ?_⟩
    · rw [hcode]
      exact Nat.one_ne_zero
    · exact fun hnone => hnone f hf herror
  | false =>
    rw [hany, if_neg Bool.false_ne_true] at hcode
    have hnone : ∀ f ∈ printed (t.lintAll r settings false files).1, f.severity ≠ .error := by
      intro f hf herror
      exact List.any_eq_false.mp hany f hf (beq_of_eq herror)
    refine ⟨rfl, iff_of_false ?_ ?_, iff_of_true hcode hnone⟩
    · rw [hcode]
      exact Nat.zero_ne_one
    · rintro ⟨f, hf, herror⟩
      exact hnone f hf herror

theorem lintOutcome_fast :
    (lintOutcome t r files format { settings with failFast := true }).lines <+:
      (lintOutcome t r files format { settings with failFast := false }).lines ∧
    (lintOutcome t r files format { settings with failFast := true }).code =
      (lintOutcome t r files format { settings with failFast := false }).code := by
  have hfast := t.lintAll_fast r settings files
  have hall : (t.lintAll r { settings with failFast := false } false files).1 = t.reports r settings files := by
    rw [t.lintAll_full]
  constructor
  · have hprefix := printed_isPrefix hfast.isPrefix
    rw [← hall] at hprefix
    exact hprefix.map _
  · have hany := hfast.any_hasErrors
    rw [← hall, ← any_printed, ← any_printed] at hany
    exact congrArg (fun b : Bool => if b then 1 else 0) hany

variable {t r files format settings}

theorem run_lint {args : List String} {table : Option Path} {start : Path}
    (hparse : parse args = .ok ⟨table, .lint start format settings⟩) : run t args = do
      let r ← registry t table
      return lintOutcome t r (← instruments t start) format settings := by
  rw [run, hparse]
  rfl

theorem run_lint_eq_ok {args : List String} {table : Option Path} {start : Path}
    (hparse : parse args = .ok ⟨table, .lint start format settings⟩) (hr : registry t table = .ok r)
    (hfiles : instruments t start = .ok files) :
    run t args = .ok (lintOutcome t r files format settings) := by
  rw [run_lint hparse]
  exact bind_eq_ok.mpr ⟨r, hr, bind_eq_ok.mpr ⟨files, hfiles, rfl⟩⟩

theorem run_lint_eq_error {args args' : List String} {table : Option Path} {start : Path}
    {settings' : Settings} {failure : Failure}
    (hparse : parse args = .ok ⟨table, .lint start format settings⟩)
    (hparse' : parse args' = .ok ⟨table, .lint start format settings'⟩) (h : run t args = .error failure) :
    run t args' = .error failure := by
  rw [run_lint hparse, bind_eq_error] at h
  rw [run_lint hparse', bind_eq_error]
  rcases h with hr | ⟨r, hr, h⟩
  · exact .inl hr
  · rcases bind_eq_error.mp h with hfiles | ⟨files, -, h⟩
    · exact .inr ⟨r, hr, bind_eq_error.mpr (.inl hfiles)⟩
    · exact absurd h nofun

variable (t r files settings)

theorem fail_fast_keeps_verdict :
    t.lintAll r { settings with failFast := false } false files = (t.reports r settings files, false) ∧
    UpToError (t.reports r settings files) (t.lintAll r { settings with failFast := true } false files) ∧
    t.lintAll r settings true files = ([], true) ∧
    ∀ args table start format,
      parse ("lint" :: args) = .ok ⟨table, .lint start format { settings with failFast := false }⟩ →
      (∀ failure, run t ("lint" :: args) = .error failure ↔
        run t ("lint" :: "--fail-fast" :: args) = .error failure) ∧
      (registry t table = .ok r → instruments t start = .ok files →
        ∃ full short, run t ("lint" :: args) = .ok full ∧
          run t ("lint" :: "--fail-fast" :: args) = .ok short ∧
          short.lines <+: full.lines ∧ short.code = full.code ∧
          full.Shows format (printed (t.reports r settings files)) ∧
          short.Shows format (printed (t.lintAll r { settings with failFast := true } false files).1)) := by
  refine ⟨t.lintAll_full r settings files, t.lintAll_fast r settings files, t.lintAll_stopped r settings files,
    ?_⟩
  intro args table start format hparse
  have hparse' := parse_failFast hparse
  refine ⟨fun failure => ⟨run_lint_eq_error hparse hparse', run_lint_eq_error hparse' hparse⟩, ?_⟩
  intro hr hfiles
  have hfull := shows_lintOutcome t r files format { settings with failFast := false }
  rw [t.lintAll_full] at hfull
  obtain ⟨hlines, hcode⟩ := lintOutcome_fast t r files format settings
  exact ⟨_, _, run_lint_eq_ok hparse hr hfiles, run_lint_eq_ok hparse' hr hfiles, hlines, hcode, hfull,
    shows_lintOutcome t r files format _⟩

section Kits

open FileTree

def kits : FileTree :=
  .ofTexts [("a.sfz", 1), ("b.sfz", 2), ("table.yaml", 3)] ["<cymbal>", "<cymbal>", "\x7b\x7d"]
    ⟨by decide, by decide, by decide⟩

theorem holds_kits : kits.Holds "a.sfz" 1 "<cymbal>" ∧ kits.Holds "b.sfz" 2 "<cymbal>" ∧
    kits.Holds "table.yaml" 3 "\x7b\x7d" :=
  ⟨holds_ofTexts _ (by decide) rfl (by decide), holds_ofTexts _ (by decide) rfl (by decide),
    holds_ofTexts _ (by decide) rfl (by decide)⟩

theorem directoryAt?_kits : kits.directoryAt? ⟨"."⟩ =
    some ⟨0, [("a.sfz", 1), ("b.sfz", 2), ("table.yaml", 3)]⟩ := by
  have hlocate : kits.locate ⟨"."⟩ = .ok 0 := by
    refine locate_eq_ok.mpr ⟨by decide, by decide, by decide, ?_⟩
    rw [show Path.pieces ⟨"."⟩ = ["."] by decide]
    exact (walk_idle (show kits.directory? 0 = some _ from rfl) (by decide) _ _).trans (by rw [walk])
  rw [directoryAt?, hlocate]
  rfl

theorem registry_kits : registry kits (some ⟨"table.yaml"⟩) = .ok (.ofCompiled []) := by
  have htable : (Yaml.parse? "\x7b\x7d").bind Table.ofData? = some ⟨⟨0, 255⟩, []⟩ := by decide +kernel
  rw [registry, Registry.load, holds_kits.2.2.read]
  change ((Registry.ofTable? ((Yaml.parse? "\x7b\x7d").bind Table.ofData?)).mapError _) = _
  rw [htable]
  rfl

theorem instruments_kits : instruments kits ⟨"."⟩ = .ok [⟨"./a.sfz"⟩, ⟨"./b.sfz"⟩] := by
  have hover : kits.overlong? ⟨"."⟩ = none := by
    rw [overlong?, directoryAt?_kits]
    rfl
  have hbelow : kits.instrumentsBelow kits.objects.size ⟨"."⟩
      ⟨0, [("a.sfz", 1), ("b.sfz", 2), ("table.yaml", 3)]⟩ = [⟨"./a.sfz"⟩, ⟨"./b.sfz"⟩] := by
    decide +kernel
  rw [instruments, hover, FileTree.instruments, directoryAt?_kits]
  dsimp only
  rw [hbelow, List.mergeSort_of_pairwise]
  decide

theorem lint_kits (r : Registry) (settings : Settings) :
    (kits.lint r settings ⟨"./a.sfz"⟩).remaining =
      [⟨.syntaxError (.unknownHeader "cymbal"), ⟨⟨"./a.sfz"⟩, ⟨1, 1⟩⟩, none⟩] ∧
    (kits.lint r settings ⟨"./b.sfz"⟩).remaining =
      [⟨.syntaxError (.unknownHeader "cymbal"), ⟨⟨"./b.sfz"⟩, ⟨1, 1⟩⟩, none⟩] := by
  have hdir : kits.directory? kits.working = some ⟨0, [("a.sfz", 1), ("b.sfz", 2), ("table.yaml", 3)]⟩ := rfl
  have ha : kits.locate ⟨"./a.sfz"⟩ = .ok 1 := locate_dot (by decide) (by decide) hdir holds_kits.1.located
  have hb : kits.locate ⟨"./b.sfz"⟩ = .ok 2 := locate_dot (by decide) (by decide) hdir holds_kits.2.1.located
  have hnodes : kits.nodes ⟨"./a.sfz"⟩ =
        .error (.malformed ⟨"./a.sfz"⟩ ⟨⟨1, 1⟩, .unknownHeader "cymbal"⟩) ∧
      kits.nodes ⟨"./b.sfz"⟩ = .error (.malformed ⟨"./b.sfz"⟩ ⟨⟨1, 1⟩, .unknownHeader "cymbal"⟩) := by
    rw [nodes, nodes, read_eq ha, read_eq hb]
    decide +kernel
  rw [lint, lint, findings, findings, resolve_eq_error hnodes.1, resolve_eq_error hnodes.2]
  exact ⟨List.mergeSort_singleton _, List.mergeSort_singleton _⟩

theorem fail_fast_keeps_verdict_kits : ∃ full short,
    run kits ["lint", "--spec", "table.yaml", "."] = .ok full ∧
    run kits ["lint", "--fail-fast", "--spec", "table.yaml", "."] = .ok short ∧
    full.lines = ["./a.sfz:1:1:E unknown header <cymbal>", "./b.sfz:1:1:E unknown header <cymbal>"] ∧
    short.lines = ["./a.sfz:1:1:E unknown header <cymbal>"] ∧ short.lines <+: full.lines ∧
    full.code = 1 ∧ short.code = 1 := by
  have hparse : parse ["lint", "--spec", "table.yaml", "."] =
      .ok ⟨some ⟨"table.yaml"⟩, .lint ⟨"."⟩ .full {}⟩ := by decide +kernel
  obtain ⟨-, -, -, hrun⟩ := fail_fast_keeps_verdict kits (.ofCompiled []) [⟨"./a.sfz"⟩, ⟨"./b.sfz"⟩] {}
  obtain ⟨full, short, hfull, hshort, hprefix, hcode, hshown, hshown'⟩ :=
    (hrun _ _ _ _ hparse).2 registry_kits instruments_kits
  obtain ⟨ha, hb⟩ := lint_kits (.ofCompiled []) {}
  have hlines : full.lines =
      ["./a.sfz:1:1:E unknown header <cymbal>", "./b.sfz:1:1:E unknown header <cymbal>"] := by
    rw [hshown.lines]
    simp only [printed, reports, List.map_cons, List.map_nil, List.flatMap_cons, List.flatMap_nil,
      ha, hb]
    decide +kernel
  have hlines' : short.lines = ["./a.sfz:1:1:E unknown header <cymbal>"] := by
    rw [hshown'.lines]
    simp only [printed, lintAll, Report.hasErrors, List.flatMap_cons,
      (lint_kits (.ofCompiled []) { failFast := true }).1]
    decide +kernel
  have hfailed : full.code = 1 := by
    apply hshown.one.mpr
    refine ⟨⟨.syntaxError (.unknownHeader "cymbal"), ⟨⟨"./a.sfz"⟩, ⟨1, 1⟩⟩, none⟩, ?_, rfl⟩
    simp [printed, reports, ha]
  exact ⟨full, short, hfull, hshort, hlines, hlines', hprefix, hfailed, hcode.trans hfailed⟩

end Kits

end CommandLine

end Sfz
