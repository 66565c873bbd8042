import Mathlib.Data.List.Induction
import UnaryLisp.Command.Basic
import UnaryLisp.Proofs.Text.Numeral

/-!
# Reading arguments

The arguments of a command line are read one after the other. Reading comes past an argument that
names the first file or is a good option, and keeps what it says. It ends at an argument that asks
for help or for the version, and at one that is in error: an option that is not known, a ceiling
that is no positive number, or a second file.

What an argument means is said by its text, and which arguments reading comes past is said without
their order: those with no bad option and no two files among them.

## Main definitions

* `Argument.Asks`, `Argument.NamesFile`, `Argument.SetsDepth`: what an argument means.
* `Command.Fails`, `Command.Decides`: an argument that is in error, and one that ends the reading.
* `Command.Takes`, `Command.Gathers`: the file and the settings that reading has come to.
* `Command.Readable`: arguments with nothing in error among them.

## Main results

* `Command.readDepth?_eq_some_iff`: a ceiling is read from exactly the values that set it.
* `Command.takes_or_decides`: reading comes past an argument, or the argument ends it.
* `Command.exists_gathers_or_decides`: the same for all arguments of a line.
* `Command.exists_gathers_iff`: reading comes past exactly the readable arguments.
-/

namespace UnaryLisp

/-! ### Single arguments -/

namespace Argument

/-- The argument asks for help or for the version. -/
inductive Asks (arg : Text) : Command → Prop
  | help (h : arg ∈ ["-h".toList, "--help".toList]) : Asks arg .help
  | version (h : arg ∈ ["-V".toList, "--version".toList]) : Asks arg .version

/-- The argument names a file: it does not start with a hyphen, or it is the hyphen. -/
def NamesFile (arg : Text) : Prop :=
  arg.head? ≠ some '-' ∨ arg = ['-']

instance (arg : Text) : Decidable (NamesFile arg) :=
  inferInstanceAs (Decidable (_ ∨ _))

/-- The argument sets the ceiling of nested evaluations, a positive number below `2 ^ 64` in
decimal, leading zeros and a plus sign allowed. -/
inductive SetsDepth : Text → Nat → Prop
  | mk {sign digits : Text} {depth : Nat} (hsign : sign = [] ∨ sign = ['+'])
      (hdigits : Decimal.Numeral depth digits) (hpos : 0 < depth) (hmax : depth < UInt64.size) :
      SetsDepth (maxDepthStart ++ (sign ++ digits)) depth

/-- The argument names a file or is a good option. -/
inductive Accepted (arg : Text) : Prop
  | file (h : NamesFile arg)
  | parallel (h : arg = "--parallel".toList)
  | maxDepth {depth : Nat} (h : SetsDepth arg depth)

/-- What the kinds of arguments mean. -/
inductive Meaning (arg : Text) : Argument → Prop
  | help (h : Asks arg .help) : Meaning arg .help
  | version (h : Asks arg .version) : Meaning arg .version
  | parallel (h : arg = "--parallel".toList) : Meaning arg .parallel
  | maxDepth {value : Text} (h : arg = maxDepthStart ++ value) : Meaning arg (.maxDepth value)
  | unknown (hasks : ∀ command, ¬ Asks arg command) (hfile : ¬ NamesFile arg)
      (hparallel : arg ≠ "--parallel".toList) (hdepth : ¬ maxDepthStart <+: arg) :
      Meaning arg .unknown
  | file (h : NamesFile arg) : Meaning arg .file

/-- Every argument is of the kind that it is taken for. -/
theorem meaning_ofText (arg : Text) : Meaning arg (ofText arg) := by
  unfold ofText
  split_ifs with hhelp hversion hparallel hdepth hhyphen
  · exact .help (.help (by simpa using hhelp))
  · exact .version (.version (by simpa using hversion))
  · exact .parallel hparallel
  · obtain ⟨value, rfl⟩ := List.isPrefixOf_iff_prefix.mp hdepth
    rw [List.drop_left]
    exact .maxDepth rfl
  · refine .unknown (fun command hasks => ?_) (by simpa [NamesFile] using hhyphen) hparallel
      (mt List.isPrefixOf_iff_prefix.mpr hdepth)
    cases hasks with
    | help h => exact hhelp (by simpa using h)
    | version h => exact hversion (by simpa using h)
  · exact .file (by simpa [NamesFile, or_iff_not_imp_left] using hhyphen)

/-- An option that sets a ceiling starts as all of them do. -/
theorem SetsDepth.isPrefix {arg : Text} {depth : Nat} (h : SetsDepth arg depth) :
    maxDepthStart <+: arg := by
  cases h with
  | mk => exact List.prefix_append maxDepthStart _

/-- An option that sets a ceiling names no file. -/
theorem not_namesFile_of_isPrefix {arg : Text} (h : maxDepthStart <+: arg) : ¬ NamesFile arg := by
  have hstart : maxDepthStart.head? = some '-' := by decide
  rintro (hhead | rfl)
  · obtain ⟨value, rfl⟩ := h
    rw [List.head?_append, hstart] at hhead
    exact hhead rfl
  · exact absurd h (by decide)

theorem Asks.mem {arg : Text} {command : Command} (h : Asks arg command) :
    arg ∈ ["-h".toList, "--help".toList, "-V".toList, "--version".toList] := by
  cases h with
  | help h => exact List.mem_append_left ["-V".toList, "--version".toList] h
  | version h => exact List.mem_append_right ["-h".toList, "--help".toList] h

/-- A file or a good option asks for nothing else. -/
theorem Accepted.not_asks {arg : Text} (h : Accepted arg) (command : Command) :
    ¬ Asks arg command := by
  have hall : ∀ arg ∈ ["-h".toList, "--help".toList, "-V".toList, "--version".toList],
      ¬ NamesFile arg ∧ arg ≠ "--parallel".toList ∧ ¬ maxDepthStart <+: arg := by decide
  intro hasks
  obtain ⟨hfile, hparallel, hdepth⟩ := hall arg hasks.mem
  cases h with
  | file h => exact hfile h
  | parallel h => exact hparallel h
  | maxDepth h => exact hdepth h.isPrefix

end Argument

/-! ### Ceilings -/

/-- A positive number is written by the runs of digits that have it as their value. -/
theorem Decimal.numeral_natCast_iff {n : Nat} {t : Text} (hpos : 0 < n) :
    Numeral n t ↔ isRun t ∧ value t = n := by
  constructor
  · intro h
    generalize hi : (n : Int) = i at h
    cases h with
    | plain zeros m =>
      obtain rfl := Int.ofNat.inj hi
      rw [← ofNat_eq_toDigits, value_replicate_append, value_ofNat]
      exact ⟨isRun_replicate_append zeros n, rfl⟩
    | minus zeros m => omega
  · rintro ⟨hrun, rfl⟩
    obtain ⟨zeros, hzeros⟩ := isRun_iff.mp hrun
    have hplain := Numeral.plain zeros (value t)
    rwa [← hzeros] at hplain

/-- A ceiling is read from exactly the values that set it. -/
theorem Command.readDepth?_eq_some_iff {value : Text} {depth : Nat} :
    readDepth? value = some depth ↔
      Argument.SetsDepth (Argument.maxDepthStart ++ value) depth := by
  have hdigits (digits : Text) (h : (if Decimal.isRun digits ∧ 0 < Decimal.value digits ∧
      Decimal.value digits < UInt64.size then some (Decimal.value digits) else none) = some depth) :
      Decimal.Numeral depth digits ∧ 0 < depth ∧ depth < UInt64.size := by
    split_ifs at h with hgood
    obtain ⟨hrun, hpos, hmax⟩ := hgood
    obtain rfl := Option.some.inj h
    exact ⟨(Decimal.numeral_natCast_iff hpos).mpr ⟨hrun, rfl⟩, hpos, hmax⟩
  constructor
  · intro h
    unfold readDepth? at h
    split at h
    · next digits =>
      obtain ⟨hnum, hpos, hmax⟩ := hdigits digits h
      exact .mk (.inr rfl) hnum hpos hmax
    · obtain ⟨hnum, hpos, hmax⟩ := hdigits value h
      exact .mk (.inl rfl) hnum hpos hmax
  · intro h
    generalize harg : Argument.maxDepthStart ++ value = arg at h
    obtain @⟨sign, digits, depth, hsign, hnum, hpos, hmax⟩ := h
    obtain rfl := List.append_cancel_left harg
    obtain ⟨hrun, rfl⟩ := (Decimal.numeral_natCast_iff hpos).mp hnum
    rcases hsign with rfl | rfl
    · rw [List.nil_append, readDepth?, if_pos ⟨hrun, hpos, hmax⟩]
      -- digits do not start with a plus sign
      rintro rest rfl
      exact absurd (Decimal.isDigit_of_mem_isRun hrun List.mem_cons_self) (by decide)
    · rw [List.singleton_append, readDepth?]
      exact if_pos ⟨hrun, hpos, hmax⟩

theorem Argument.SetsDepth.unique {arg : Text} {depth depth' : Nat} (h : SetsDepth arg depth)
    (h' : SetsDepth arg depth') : depth = depth' := by
  obtain ⟨value, rfl⟩ := h.isPrefix
  have hread := Command.readDepth?_eq_some_iff.mpr h
  rw [Command.readDepth?_eq_some_iff.mpr h'] at hread
  exact (Option.some.inj hread).symm

namespace Command

open Argument

/-! ### One argument -/

/-- The argument is in error, where the files have been named before it. -/
inductive Fails (arg : Text) : List Text → UsageError → Prop
  | maxDepth {files : List Text} {value : Text} (h : arg = maxDepthStart ++ value)
      (hvalue : ∀ depth, ¬ SetsDepth arg depth) : Fails arg files (.invalidMaxDepth value)
  | unknown {files : List Text} (hasks : ∀ command, ¬ Asks arg command) (h : ¬ Accepted arg)
      (hdepth : ¬ maxDepthStart <+: arg) : Fails arg files (.unknownOption arg)
  | file {files : List Text} (h : NamesFile arg) (hfiles : files ≠ []) :
      Fails arg files (.unexpectedArgument arg)

/-- The argument ends the reading: it asks for something other than to run a file, or it is in
error. -/
inductive Decides (arg : Text) (files : List Text) : Except UsageError Command → Prop
  | ask {command : Command} (h : Asks arg command) : Decides arg files (.ok command)
  | fault {cause : UsageError} (h : Fails arg files cause) : Decides arg files (.error cause)

/-- Reading comes past the argument, which may change what is known of the file and the settings. -/
inductive Takes (arg : Text) : Option Text → Config → Option Text → Config → Prop
  | parallel {path : Option Text} {config : Config} (h : arg = "--parallel".toList) :
      Takes arg path config path { config with parallel := true }
  | maxDepth {path : Option Text} {config : Config} {depth : Nat} (h : SetsDepth arg depth) :
      Takes arg path config path { config with maxDepth := some depth }
  | file {config : Config} (h : NamesFile arg) : Takes arg none config (some arg) config

/-- A request for help or for the version is answered where reading comes to it. -/
theorem parseFrom_of_asks {arg : Text} {command : Command} (h : Asks arg command)
    (path : Option Text) (config : Config) (args : List Text) :
    parseFrom path config (arg :: args) = .ok command := by
  have hhelp : ∀ arg ∈ ["-h".toList, "--help".toList], ofText arg = .help := by decide
  have hversion : ∀ arg ∈ ["-V".toList, "--version".toList], ofText arg = .version := by decide
  cases h with
  | help h => simp only [parseFrom, hhelp arg h]
  | version h => simp only [parseFrom, hversion arg h]

/-- Reading comes past an argument, or the argument ends it, whatever follows. -/
theorem takes_or_decides (arg : Text) (path : Option Text) (config : Config) :
    (∃ path' config', Takes arg path config path' config' ∧
        ∀ args, parseFrom path config (arg :: args) = parseFrom path' config' args) ∨
      ∃ result, Decides arg path.toList result ∧
        ∀ args, parseFrom path config (arg :: args) = result := by
  have hmeaning := meaning_ofText arg
  generalize hkind : ofText arg = kind at hmeaning
  cases hmeaning with
  | help h => exact .inr ⟨_, .ask h, fun args => by simp only [parseFrom, hkind]⟩
  | version h => exact .inr ⟨_, .ask h, fun args => by simp only [parseFrom, hkind]⟩
  | parallel h => exact .inl ⟨_, _, .parallel h, fun args => by simp only [parseFrom, hkind]⟩
  | @maxDepth value h =>
    cases hread : readDepth? value with
    | some depth =>
      have hsets : SetsDepth arg depth := h ▸ readDepth?_eq_some_iff.mp hread
      exact .inl ⟨_, _, .maxDepth hsets, fun args => by simp only [parseFrom, hkind, hread]⟩
    | none =>
      have hnone (depth) : ¬ SetsDepth arg depth := fun hsets => by
        rw [readDepth?_eq_some_iff.mpr (h ▸ hsets)] at hread
        contradiction
      exact .inr ⟨_, .fault (.maxDepth h hnone), fun args => by simp only [parseFrom, hkind, hread]⟩
  | unknown hasks hfile hparallel hdepth =>
    have hbad : ¬ Accepted arg := by
      rintro (h | h | h)
      · exact hfile h
      · exact hparallel h
      · exact hdepth h.isPrefix
    exact .inr ⟨_, .fault (.unknown hasks hbad hdepth), fun args => by simp only [parseFrom, hkind]⟩
  | file h =>
    cases path with
    | none => exact .inl ⟨_, _, .file h, fun args => by simp only [parseFrom, hkind]⟩
    | some first =>
      have hfiles : (some first).toList ≠ [] := List.cons_ne_nil first []
      exact .inr ⟨_, .fault (.file h hfiles), fun args => by simp only [parseFrom, hkind]⟩

/-! ### All arguments -/

/-- The files that the arguments name, in order. -/
def files (args : List Text) : List Text :=
  args.filter fun arg => NamesFile arg

/-- Every argument names a file or is a good option, and no more than one file is named. -/
structure Readable (args : List Text) : Prop where
  accepted : ∀ arg ∈ args, Accepted arg
  one_file : (files args).length ≤ 1

/-- Reading the arguments comes to the file and the settings. -/
inductive Gathers : List Text → Option Text → Config → Prop
  | nil : Gathers [] none {}
  | concat {args : List Text} {arg : Text} {path path' : Option Text} {config config' : Config}
      (h : Gathers args path config) (ht : Takes arg path config path' config') :
      Gathers (args ++ [arg]) path' config'

variable {args : List Text} {arg : Text} {path path' : Option Text} {config config' : Config}
  {result : Except UsageError Command}

theorem files_append (args args' : List Text) : files (args ++ args') = files args ++ files args' :=
  List.filter_append args args'

theorem Takes.accepted (h : Takes arg path config path' config') : Accepted arg := by
  cases h with
  | parallel h => exact .parallel h
  | maxDepth h => exact .maxDepth h
  | file h => exact .file h

/-- An argument that may stand on its own ends the reading only as the second file. -/
theorem Decides.namesFile {files : List Text} (h : Decides arg files result)
    (ha : Accepted arg) : NamesFile arg ∧ files ≠ [] := by
  cases h with
  | @ask command h => exact absurd h (ha.not_asks command)
  | fault h =>
    cases h with
    | @maxDepth value harg hvalue =>
      have hstart : maxDepthStart <+: arg := harg ▸ List.prefix_append maxDepthStart value
      cases ha with
      | file h => exact absurd h (not_namesFile_of_isPrefix hstart)
      | parallel h => exact absurd (h ▸ hstart) (by decide)
      | @maxDepth depth h => exact absurd h (hvalue depth)
    | unknown _ h => exact absurd ha h
    | file h hfiles => exact ⟨h, hfiles⟩

theorem Gathers.accepted (h : Gathers args path config) : ∀ arg ∈ args, Accepted arg := by
  induction h with
  | nil => simp
  | concat _ ht ih =>
    intro arg hmem
    rcases List.mem_append.mp hmem with hmem | hmem
    · exact ih arg hmem
    · obtain rfl := List.mem_singleton.mp hmem
      exact ht.accepted

/-- The file is the one that an argument names. -/
theorem Gathers.files_eq (h : Gathers args path config) : files args = path.toList := by
  induction h with
  | nil => rfl
  | @concat args arg path path' config config' _ ht ih =>
    rw [files_append, ih]
    cases ht with
    | parallel h =>
      subst h
      exact List.append_nil _
    | maxDepth h => simp [files, not_namesFile_of_isPrefix h.isPrefix]
    | file h => simp [files, h]

/-- Reading comes past all arguments, or one of them ends it. -/
theorem exists_gathers_or_decides (args : List Text) :
    (∃ path config, Gathers args path config ∧
        ∀ rest, parse (args ++ rest) = parseFrom path config rest) ∨
      ∃ before arg after path config result, args = before ++ arg :: after ∧
        Gathers before path config ∧ Decides arg path.toList result ∧
        ∀ rest, parse (args ++ rest) = result := by
  induction args using List.reverseRecOn with
  | nil => exact .inl ⟨none, {}, .nil, fun rest => rfl⟩
  | append_singleton args arg ih =>
    rcases ih with ⟨path, config, hgathers, hparse⟩ |
      ⟨before, stop, after, path, config, result, rfl, hgathers, hdecides, hparse⟩
    · rcases takes_or_decides arg path config with ⟨path', config', htakes, hstep⟩ |
        ⟨result, hdecides, hstep⟩
      · refine .inl ⟨path', config', .concat hgathers htakes, fun rest => ?_⟩
        rw [List.append_assoc, List.singleton_append, hparse, hstep]
      · refine .inr ⟨args, arg, [], path, config, result, rfl, hgathers, hdecides, fun rest => ?_⟩
        rw [List.append_assoc, List.singleton_append, hparse, hstep]
    · refine .inr ⟨before, stop, after ++ [arg], path, config, result, by simp, hgathers, hdecides,
        fun rest => ?_⟩
      rw [List.append_assoc, hparse]

theorem Gathers.readable (h : Gathers args path config) : Readable args := by
  refine ⟨h.accepted, ?_⟩
  rw [h.files_eq]
  exact Option.length_toList_le

/-- Reading comes past exactly the readable arguments. -/
theorem exists_gathers_iff :
    (∃ path config, Gathers args path config ∧
      ∀ rest, parse (args ++ rest) = parseFrom path config rest) ↔ Readable args := by
  constructor
  · rintro ⟨path, config, hgathers, -⟩
    exact hgathers.readable
  · rintro ⟨haccepted, hfiles⟩
    refine (exists_gathers_or_decides args).resolve_right ?_
    rintro ⟨before, arg, after, path, config, result, rfl, hgathers, hdecides, -⟩
    obtain ⟨hfile, hne⟩ := hdecides.namesFile (haccepted arg (by simp))
    have hpos : 0 < path.toList.length := List.length_pos_iff.mpr hne
    rw [files_append, hgathers.files_eq, files, List.filter_cons_of_pos (by simpa using hfile),
      List.length_append, List.length_cons] at hfiles
    omega

end Command

end UnaryLisp
