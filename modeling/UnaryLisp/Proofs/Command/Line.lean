import Mathlib.Data.List.Perm.Basic
import UnaryLisp.Proofs.Command.Arguments

/-!
# What a command line asks for

Arguments are read from left to right, but what they ask for hardly depends on their order. A line
asks to run a file when it names one file and all its options are good ones. Of the order of such
arguments only that of the ceilings matters, as the last of these counts.

A request for help or for the version is answered when nothing before it is in error, whatever
follows. It does not win over everything on the line: an error that stands before it is reported.

## Main definitions

* `Command.LastDepth`: the ceiling that the last of the options for it sets.
* `Command.Describes`: the arguments ask to run a file under some settings.

## Main results

* `Command.parse_eq_run_iff`: which command lines run a file.
* `Command.exists_fails_of_not_readable`: the first argument in error decides.
* `Command.parse_of_asks_iff`: when a request for help or for the version is answered.
* `Command.not_parse_of_asks`: it is not always answered.
-/

namespace UnaryLisp

namespace Command

open Argument

variable {args before after : List Text} {arg file : Text} {path : Option Text}
  {config config' : Config}

/-! ### The last ceiling -/

/-- The options for a ceiling, in order. -/
def ceilings (args : List Text) : List Text :=
  args.filter fun arg => maxDepthStart.isPrefixOf arg

/-- The ceiling that the last of the options for it sets, if there is one. -/
inductive LastDepth : List Text → Option Nat → Prop
  | none {args : List Text} (h : ∀ arg ∈ args, ∀ depth, ¬ SetsDepth arg depth) :
      LastDepth args none
  | some {before after : List Text} {arg : Text} {depth : Nat} (h : SetsDepth arg depth)
      (hafter : ∀ arg ∈ after, ∀ depth, ¬ SetsDepth arg depth) :
      LastDepth (before ++ arg :: after) (some depth)

theorem LastDepth.concat {last : Option Nat} (h : LastDepth args last)
    (harg : ∀ depth, ¬ SetsDepth arg depth) : LastDepth (args ++ [arg]) last := by
  have hnone {rest : List Text} (hrest : ∀ arg ∈ rest, ∀ depth, ¬ SetsDepth arg depth) :
      ∀ other ∈ rest ++ [arg], ∀ depth, ¬ SetsDepth other depth := by
    intro other hmem
    rcases List.mem_append.mp hmem with hmem | hmem
    · exact hrest other hmem
    · exact List.mem_singleton.mp hmem ▸ harg
  cases h with
  | none h => exact .none (hnone h)
  | some h hafter =>
    rw [List.append_assoc, List.cons_append]
    exact .some h (hnone hafter)

theorem LastDepth.unique {last last' : Option Nat} (h : LastDepth args last)
    (h' : LastDepth args last') : last = last' := by
  cases h with
  | none h =>
    cases h' with
    | none => rfl
    | @some _ _ arg depth h' => exact absurd h' (h arg (by simp) depth)
  | @some before after arg depth h hafter =>
    generalize hargs : before ++ arg :: after = args at h'
    cases h' with
    | none h' => exact absurd h (h' arg (by simp [← hargs]) depth)
    | @some before' after' arg' depth' h' hafter' =>
      have harg : arg = arg' := by
        -- neither of the two options stands behind the other
        rcases List.append_eq_append_iff.mp hargs with ⟨between, -, heq⟩ | ⟨between, -, heq⟩
        · cases between with
          | nil => exact (List.cons.inj heq).1
          | cons _ between =>
            obtain ⟨-, rfl⟩ := List.cons.inj heq
            exact absurd h' (hafter arg' (by simp) depth')
        · cases between with
          | nil => exact (List.cons.inj heq).1.symm
          | cons _ between =>
            obtain ⟨-, rfl⟩ := List.cons.inj heq
            exact absurd h (hafter' arg (by simp) depth)
      subst harg
      exact congrArg Option.some (h.unique h')

/-- Only the options for a ceiling matter. -/
theorem lastDepth_ceilings_iff {last : Option Nat} :
    LastDepth (ceilings args) last ↔ LastDepth args last := by
  have hstart {arg : Text} {depth : Nat} (h : SetsDepth arg depth) :
      maxDepthStart.isPrefixOf arg := List.isPrefixOf_iff_prefix.mpr h.isPrefix
  have hnone {rest : List Text} : (∀ arg ∈ ceilings rest, ∀ depth, ¬ SetsDepth arg depth) ↔
      ∀ arg ∈ rest, ∀ depth, ¬ SetsDepth arg depth := by
    refine ⟨fun h arg hmem depth hsets => ?_, fun h arg hmem => h arg (List.mem_filter.mp hmem).1⟩
    exact h arg (List.mem_filter.mpr ⟨hmem, hstart hsets⟩) depth hsets
  constructor
  · intro h
    generalize hargs : ceilings args = options at h
    cases h with
    | none h =>
      subst hargs
      exact .none (hnone.mp h)
    | some h hafter =>
      obtain ⟨before, rest, rfl, -, hrest⟩ := List.filter_eq_append_iff.mp hargs
      obtain ⟨between, after, rfl, -, -, rfl⟩ := List.filter_eq_cons_iff.mp hrest
      rw [← List.append_assoc]
      exact .some h (hnone.mp hafter)
  · intro h
    cases h with
    | none h => exact .none (hnone.mpr h)
    | some h hafter =>
      rw [ceilings, List.filter_append, List.filter_cons_of_pos (hstart h)]
      exact .some h (hnone.mpr hafter)

theorem Gathers.lastDepth (h : Gathers args path config) : LastDepth args config.maxDepth := by
  induction h with
  | nil => exact .none (by simp)
  | @concat args arg path path' config config' _ ht ih =>
    cases ht with
    | parallel h =>
      refine ih.concat fun depth hsets => ?_
      exact absurd (h ▸ hsets.isPrefix) (by decide)
    | maxDepth h => exact .some h (by simp)
    | file h => exact ih.concat fun depth hsets => not_namesFile_of_isPrefix hsets.isPrefix h

theorem Gathers.parallel_iff (h : Gathers args path config) :
    config.parallel ↔ "--parallel".toList ∈ args := by
  induction h with
  | nil => simp
  | @concat args arg path path' config config' _ ht ih =>
    rw [List.mem_append, List.mem_singleton]
    cases ht with
    | parallel h => exact ⟨fun _ => .inr h.symm, fun _ => rfl⟩
    | maxDepth h =>
      have hne : "--parallel".toList ≠ arg := fun heq => absurd (heq ▸ h.isPrefix) (by decide)
      exact ih.trans (or_iff_left hne).symm
    | file h =>
      have hne : "--parallel".toList ≠ arg := fun heq => absurd (heq ▸ h) (by decide)
      exact ih.trans (or_iff_left hne).symm

/-! ### Lines that run a file -/

/-- The arguments ask to run the file under the settings: none of them asks for something else, one
of them names the file, and all others are good options. The expressions are evaluated in parallel
if some argument says so, and the last ceiling counts. -/
structure Describes (args : List Text) (path : Text) (config : Config) : Prop where
  not_asks : ∀ arg ∈ args, ∀ command, ¬ Asks arg command
  file : files args = [path]
  options : ∀ arg ∈ args, ¬ NamesFile arg →
    arg = "--parallel".toList ∨ ∃ depth, SetsDepth arg depth
  parallel : config.parallel ↔ "--parallel".toList ∈ args
  maxDepth : LastDepth args config.maxDepth

theorem Describes.readable (h : Describes args file config) : Readable args := by
  refine ⟨fun arg hmem => ?_, by simp [h.file]⟩
  by_cases hfile : NamesFile arg
  · exact .file hfile
  · rcases h.options arg hmem hfile with heq | ⟨depth, hsets⟩
    · exact .parallel heq
    · exact .maxDepth hsets

/-- What reading comes to is what the arguments describe. -/
theorem Gathers.describes (h : Gathers args (some file) config) : Describes args file config := by
  refine ⟨fun arg hmem => (h.accepted arg hmem).not_asks, h.files_eq, fun arg hmem hfile => ?_,
    h.parallel_iff, h.lastDepth⟩
  cases h.accepted arg hmem with
  | file h => exact absurd h hfile
  | parallel h => exact .inl h
  | maxDepth h => exact .inr ⟨_, h⟩

theorem Gathers.eq_of_describes (h : Gathers args path config')
    (hd : Describes args file config) : path = some file ∧ config' = config := by
  refine ⟨?_, ?_⟩
  · have hfiles := h.files_eq.symm.trans hd.file
    exact Option.toList_eq_singleton_iff.mp hfiles
  · have hparallel : config'.parallel = config.parallel :=
      Bool.eq_iff_iff.mpr (h.parallel_iff.trans hd.parallel.symm)
    have hdepth : config'.maxDepth = config.maxDepth := h.lastDepth.unique hd.maxDepth
    obtain ⟨parallel, depth⟩ := config
    obtain ⟨parallel', depth'⟩ := config'
    exact congrArg₂ Config.mk hparallel hdepth

/-- A command line runs a file exactly when it describes the run. -/
theorem parse_eq_run_iff_describes :
    parse args = .ok (.run file config) ↔ Describes args file config := by
  constructor
  · intro h
    rcases exists_gathers_or_decides args with ⟨path, config', hgathers, hparse⟩ |
      ⟨before, arg, after, path, config', result, -, -, hdecides, hparse⟩
    · have hend := hparse []
      rw [List.append_nil, h] at hend
      cases path with
      | none => contradiction
      | some path =>
        obtain ⟨rfl, rfl⟩ := Command.run.inj (Except.ok.inj hend)
        exact hgathers.describes
    · have hend := hparse []
      rw [List.append_nil, h] at hend
      subst hend
      cases hdecides with
      | ask hasks => cases hasks
  · intro h
    obtain ⟨path, config', hgathers, hparse⟩ := exists_gathers_iff.mpr h.readable
    obtain ⟨rfl, rfl⟩ := hgathers.eq_of_describes h
    have hend := hparse []
    rwa [List.append_nil] at hend

/-- Arguments in another order describe the same run if the options for a ceiling keep theirs. -/
theorem Describes.perm {args' : List Text} (h : Describes args file config)
    (hperm : args.Perm args') (horder : ceilings args = ceilings args') :
    Describes args' file config where
  not_asks arg hmem := h.not_asks arg (hperm.mem_iff.mpr hmem)
  file := List.perm_singleton.mp (h.file ▸ (hperm.filter _).symm)
  options arg hmem := h.options arg (hperm.mem_iff.mpr hmem)
  parallel := h.parallel.trans hperm.mem_iff
  maxDepth := by
    rw [← lastDepth_ceilings_iff, ← horder, lastDepth_ceilings_iff]
    exact h.maxDepth

/-- Asking for parallel evaluation once more describes the same run. -/
theorem Describes.insert_parallel (h : Describes (before ++ after) file config)
    (hparallel : "--parallel".toList ∈ before ++ after) :
    Describes (before ++ "--parallel".toList :: after) file config := by
  have hmem (arg : Text) :
      arg ∈ before ++ "--parallel".toList :: after ↔ arg ∈ before ++ after := by
    rw [List.mem_append, List.mem_cons, or_left_comm, ← List.mem_append]
    exact or_iff_right_of_imp fun heq => heq ▸ hparallel
  refine ⟨fun arg ha => h.not_asks arg ((hmem arg).mp ha), ?_,
    fun arg ha => h.options arg ((hmem arg).mp ha), h.parallel.trans (hmem _).symm, ?_⟩
  · rw [files, List.filter_append, List.filter_cons_of_neg (by decide), ← List.filter_append]
    exact h.file
  · rw [← lastDepth_ceilings_iff, ceilings, List.filter_append,
      List.filter_cons_of_neg (by decide), ← List.filter_append, ← ceilings,
      lastDepth_ceilings_iff]
    exact h.maxDepth

/-- A command line runs a file exactly when it describes the run. So arguments in another order run
the same file under the same settings if the options for a ceiling keep theirs, and to ask for
parallel evaluation once more changes nothing. -/
theorem parse_eq_run_iff (args : List Text) (file : Text) (config : Config) :
    (parse args = .ok (.run file config) ↔ Describes args file config) ∧
      (∀ args' : List Text, args.Perm args' → ceilings args = ceilings args' →
        parse args = .ok (.run file config) → parse args' = .ok (.run file config)) ∧
      ∀ before after, args = before ++ after → "--parallel".toList ∈ args →
        parse args = .ok (.run file config) →
        parse (before ++ "--parallel".toList :: after) = .ok (.run file config) := by
  refine ⟨parse_eq_run_iff_describes, fun args' hperm horder h => ?_, ?_⟩
  · exact parse_eq_run_iff_describes.mpr
      ((parse_eq_run_iff_describes.mp h).perm hperm horder)
  · rintro before after rfl hparallel h
    exact parse_eq_run_iff_describes.mpr
      ((parse_eq_run_iff_describes.mp h).insert_parallel hparallel)

/-- A lone hyphen is the file, and the last of two ceilings counts wherever the rest stands. -/
theorem parse_eq_run_iff_hyphen :
    let args := ["--max-depth=007".toList, "-".toList, "--parallel".toList,
      "--max-depth=+18446744073709551615".toList]
    let config : Config := { parallel := true, maxDepth := some 18446744073709551615 }
    Describes args "-".toList config ∧
      parse ["--parallel".toList, "--max-depth=007".toList,
        "--max-depth=+18446744073709551615".toList, "-".toList] = .ok (.run "-".toList config) ∧
      parse ("--parallel".toList :: args) = .ok (.run "-".toList config) := by
  intro args config
  obtain ⟨hiff, hperm, hagain⟩ := parse_eq_run_iff args "-".toList config
  have hrun : parse args = .ok (.run "-".toList config) := by decide +kernel
  exact ⟨hiff.mp hrun, hperm _ (by decide +kernel) (by decide +kernel) hrun,
    hagain [] args rfl (by decide +kernel) hrun⟩

/-! ### Requests for help or for the version -/

/-- Where arguments that request neither help nor the version are not readable, the first of them
that is in error decides, whatever follows. -/
theorem exists_fails_of_not_readable (h : ∀ arg ∈ args, ∀ command, ¬ Asks arg command)
    (hnot : ¬ Readable args) :
    ∃ readable bad rest cause, args = readable ++ bad :: rest ∧ Readable readable ∧
      Fails bad (files readable) cause ∧ ∀ more, parse (args ++ more) = .error cause := by
  rcases exists_gathers_or_decides args with ⟨path, config, hgathers, -⟩ |
    ⟨readable, bad, rest, path, config, result, rfl, hgathers, hdecides, hparse⟩
  · exact absurd hgathers.readable hnot
  · cases hdecides with
    | @ask command hasks => exact absurd hasks (h bad (by simp) command)
    | @fault cause hfails =>
      rw [← hgathers.files_eq] at hfails
      exact ⟨readable, bad, rest, cause, rfl, hgathers.readable, hfails, hparse⟩

/-- The first request for help or for the version is answered exactly when the arguments before it
are readable. If they are not, the first of them that is in error decides. -/
theorem parse_of_asks_iff {before after : List Text} {arg : Text} {command : Command}
    (hbefore : ∀ other ∈ before, ∀ command, ¬ Asks other command) (harg : Asks arg command) :
    (parse (before ++ arg :: after) = .ok command ↔ Readable before) ∧
      (¬ Readable before → ∃ readable bad rest cause, before = readable ++ bad :: rest ∧
        Readable readable ∧ Fails bad (files readable) cause ∧
        parse (before ++ arg :: after) = .error cause) := by
  refine ⟨⟨fun h => ?_, fun h => ?_⟩, fun hnot => ?_⟩
  · by_contra hnot
    obtain ⟨-, -, -, cause, -, -, -, herror⟩ := exists_fails_of_not_readable hbefore hnot
    rw [herror] at h
    contradiction
  · obtain ⟨path, config, -, hparse⟩ := exists_gathers_iff.mpr h
    rw [hparse, parseFrom_of_asks harg]
  · obtain ⟨readable, bad, rest, cause, heq, hreadable, hfails, herror⟩ :=
      exists_fails_of_not_readable hbefore hnot
    exact ⟨readable, bad, rest, cause, heq, hreadable, hfails, herror (arg :: after)⟩

/-- Behind a file and a good option the version is asked for; behind two files help is not given. -/
theorem parse_of_asks_iff_version :
    Readable ["prog".toList, "--max-depth=2".toList] ∧
      parse ["prog".toList, "--max-depth=2".toList, "--version".toList, "--bogus".toList] =
        .ok .version ∧
      ¬ Readable ["a".toList, "a".toList] ∧
      parse ["a".toList, "a".toList, "-h".toList] = .error (.unexpectedArgument "a".toList) := by
  have hplain {args : List Text} (h : ∀ arg ∈ args, arg ∉ ["-h".toList, "--help".toList,
      "-V".toList, "--version".toList]) : ∀ arg ∈ args, ∀ command, ¬ Asks arg command :=
    fun arg hmem command hasks => h arg hmem hasks.mem
  have hversion : Asks "--version".toList .version := .version (by decide)
  have hhelp : Asks "-h".toList .help := .help (by decide)
  obtain ⟨hgood, -⟩ := @parse_of_asks_iff ["prog".toList, "--max-depth=2".toList]
    ["--bogus".toList] _ _ (hplain (by decide)) hversion
  obtain ⟨hiff, -⟩ := @parse_of_asks_iff ["a".toList, "a".toList] [] _ _ (hplain (by decide)) hhelp
  have hready : Readable ["prog".toList, "--max-depth=2".toList] :=
    hgood.mp (by decide +kernel)
  have herror : parse ["a".toList, "a".toList, "-h".toList] =
      .error (.unexpectedArgument "a".toList) := by decide +kernel
  refine ⟨hready, hgood.mpr hready, fun h => ?_, herror⟩
  have hok := hiff.mpr h
  rw [List.cons_append, List.singleton_append, herror] at hok
  contradiction

/-- An option in error that stands before a request for help wins over it. -/
theorem not_parse_of_asks :
    ¬ ∀ (before after : List Text) (arg : Text) (command : Command),
      (∀ other ∈ before, ∀ command, ¬ Asks other command) → Asks arg command →
        parse (before ++ arg :: after) = .ok command := by
  intro h
  have hbefore : ∀ other ∈ ["--bogus".toList], ∀ command, ¬ Asks other command := by
    intro other hmem command hasks
    obtain rfl := List.mem_singleton.mp hmem
    exact absurd hasks.mem (by decide)
  have hhelp := h ["--bogus".toList] [] "--help".toList .help hbefore (.help (by decide))
  exact absurd hhelp (by decide +kernel)

end Command

end UnaryLisp
