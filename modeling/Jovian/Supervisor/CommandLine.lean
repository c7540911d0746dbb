import Jovian.Lib.Argv
import Mathlib.Data.List.Infix

/-!
# Jovian — a kernel's command line on Windows (`KernelProcess::start`)

A process gets one line, and takes it apart by the rules of `CommandLineToArgvW`. `start` puts the
executable and each argument in quotes, and a backslash before a quote of the argument's own. The
argument's own backslashes are left as they are: one before a quote, or before the quote that ends
the argument, is then read as escaping it.

* **`command_line_parses_iff`** — the kernel gets its arguments exactly if none of them ends with a
  backslash, or has one before a quote (`Plain`).
-/

namespace Jovian.CommandLine

open Argv (Text parse arguments weight runs)

/-! ## The command line -/

def quoteArg (value : Text) : Text :=
  '"' :: value.flatMap (fun c => if c = '"' then ['\\', c] else [c]) ++ ['"']

/-- What the command line is made of. -/
structure KernelProcessOptions where
  kernelExePath : Text
  rHome : Text := []
  rPath : Text := []
  rLibs : Text := []
  pandocPath : Text := []
  pythonHome : Text := []
  pythonPath : Text := []
  venvPath : Text := []
  stataHome : Text := []
  stataEdition : Text := []
  explicitArgs : List Text := []
  registrationIp : Text := []
  registrationPort : Text := []
  registrationId : Text := []
  key : Text := []

def toArgPairs (options : KernelProcessOptions) : List (Text × Text) :=
  [("--r-home".toList, options.rHome),
   ("--r-path".toList, options.rPath),
   ("--r-libs".toList, options.rLibs),
   ("--pandoc-path".toList, options.pandocPath),
   ("--python-home".toList, options.pythonHome),
   ("--python-path".toList, options.pythonPath),
   ("--venv-path".toList, options.venvPath),
   ("--stata-home".toList, options.stataHome),
   ("--stata-edition".toList, options.stataEdition),
   ("--registration-ip".toList, options.registrationIp),
   ("--registration-port".toList, options.registrationPort),
   ("--registration-id".toList, options.registrationId),
   ("--key".toList, options.key)]

/-- The explicit arguments, where there are some; else the flags of the options that are set. -/
def commandArguments (options : KernelProcessOptions) : List Text :=
  if options.explicitArgs ≠ [] then options.explicitArgs
  else (toArgPairs options).flatMap fun (flag, value) => if value = [] then [] else [flag, value]

/-- What `KernelProcess::start` builds. -/
def commandLine (options : KernelProcessOptions) : Text :=
  quoteArg options.kernelExePath ++ (commandArguments options).flatMap fun arg => ' ' :: quoteArg arg

/-! ## The property -/

/-- It comes through: no backslash of it is last, or before a quote. -/
def Plain (arg : Text) : Prop := ¬ ['\\'] <:+ arg ∧ ¬ ['\\', '"'] <:+: arg

instance (arg : Text) : Decidable (Plain arg) := inferInstanceAs (Decidable (_ ∧ _))

/-! ## An argument in its quotes -/

/-- The characters of an argument, as they stand between its quotes. -/
def escaped (value : Text) : Text := value.flatMap fun c => if c = '"' then ['\\', c] else [c]

/-- It comes through behind `n` backslashes. -/
def PlainAfter (n : Nat) (arg : Text) : Prop :=
  (0 < n → arg ≠ [] ∧ arg.head? ≠ some '"') ∧ Plain arg

theorem plain_cons {c : Char} {arg : Text} : Plain (c :: arg) ↔
    (c = '\\' → arg ≠ [] ∧ arg.head? ≠ some '"') ∧ Plain arg := by
  have hlast : ['\\'] <:+ c :: arg ↔ (c = '\\' ∧ arg = []) ∨ ['\\'] <:+ arg := by
    rw [List.suffix_cons_iff, List.cons.injEq, eq_comm, eq_comm (a := [])]
  have hquote : ['\\', '"'] <:+: c :: arg ↔
      (c = '\\' ∧ arg.head? = some '"') ∨ ['\\', '"'] <:+: arg := by
    rw [List.infix_cons_iff, List.cons_prefix_cons, eq_comm (b := c)]
    cases arg with
    | nil => simp
    | cons d arg => simp [List.cons_prefix_cons, eq_comm]
  unfold Plain
  rw [hlast, hquote]
  tauto

theorem plainAfter_zero {arg : Text} : PlainAfter 0 arg ↔ Plain arg := by
  simp [PlainAfter]

theorem plainAfter_nil {n : Nat} : PlainAfter n [] ↔ n = 0 := by
  have hplain : Plain [] := by decide
  simp only [PlainAfter, hplain]
  simp [Nat.pos_iff_ne_zero]

theorem plainAfter_backslash {n : Nat} {arg : Text} :
    PlainAfter n ('\\' :: arg) ↔ PlainAfter (n + 1) arg := by
  simp [PlainAfter, plain_cons]

theorem plainAfter_quote {n : Nat} {arg : Text} :
    PlainAfter n ('"' :: arg) ↔ n = 0 ∧ PlainAfter 0 arg := by
  simp [PlainAfter, plain_cons, Nat.pos_iff_ne_zero]

theorem plainAfter_other {n : Nat} {c : Char} {arg : Text} (hback : c ≠ '\\') (hquote : c ≠ '"') :
    PlainAfter n (c :: arg) ↔ PlainAfter 0 arg := by
  simp [PlainAfter, plain_cons, hback, hquote]

theorem quoteArg_eq (value : Text) : quoteArg value = '"' :: (escaped value ++ ['"']) := rfl

@[simp] theorem escaped_nil : escaped [] = [] := rfl

theorem escaped_quote (value : Text) : escaped ('"' :: value) = '\\' :: '"' :: escaped value := rfl

theorem escaped_other {c : Char} (h : c ≠ '"') (value : Text) :
    escaped (c :: value) = c :: escaped value := by
  simp [escaped, h]

/-! ## Plain arguments come through -/

theorem arguments_escaped_plain {n : Nat} {arg : Text} (h : PlainAfter n arg) (current rest : Text) :
    Argv.arguments (some current) true n (escaped arg ++ '"' :: rest) =
      Argv.arguments (some (current ++ List.replicate n '\\' ++ arg)) false 0 rest := by
  induction arg generalizing n current with
  | nil =>
    obtain rfl := plainAfter_nil.mp h
    rw [escaped_nil, List.nil_append, Argv.arguments_quote rfl]
    simp
  | cons c arg ih =>
    by_cases hback : c = '\\'
    · subst hback
      rw [escaped_other (by decide), List.cons_append, Argv.arguments_backslash,
        ih (plainAfter_backslash.mp h)]
      simp [List.replicate_succ']
    · by_cases hquote : c = '"'
      · subst hquote
        obtain ⟨rfl, harg⟩ := plainAfter_quote.mp h
        rw [escaped_quote, List.cons_append, List.cons_append, Argv.arguments_backslash,
          Argv.arguments_escaped rfl, ih harg]
        simp
      · rw [escaped_other hquote, List.cons_append, Argv.arguments_other hback hquote fun _ => rfl,
          ih ((plainAfter_other hback hquote).mp h)]
        simp

theorem arguments_plain {args : List Text} (h : ∀ a ∈ args, Plain a) (current : Option Text) :
    Argv.arguments current false 0 (args.flatMap fun arg => ' ' :: quoteArg arg) =
      current.toList ++ args := by
  induction args generalizing current with
  | nil => cases current <;> simp [Argv.arguments]
  | cons arg args ih =>
    have harg : PlainAfter 0 arg := plainAfter_zero.mpr (h arg (by simp))
    rw [List.flatMap_cons, quoteArg_eq, List.cons_append, List.cons_append, List.append_assoc,
      Argv.arguments_blank (by decide), Argv.arguments_quote rfl, List.cons_append,
      List.nil_append]
    show _ ++ Argv.arguments (some []) true 0 _ = _
    rw [arguments_escaped_plain harg, ih fun a ha => h a (by simp [ha])]
    cases current <;> simp

/-! ## Others lose a backslash -/

theorem runs_quote (n : Nat) (text rest : Text) :
    runs n (text ++ '"' :: rest) = runs n (text ++ ['"']) + runs 0 rest := by
  induction text generalizing n with
  | nil => simp [runs]
  | cons c text ih =>
    by_cases hback : c = '\\'
    · simp only [List.cons_append, runs, if_pos hback, ih]
    · by_cases hquote : c = '"'
      · simp only [List.cons_append, runs, if_neg hback, if_pos hquote, ih]
        omega
      · simp only [List.cons_append, runs, if_neg hback, if_neg hquote, ih]
        omega

/-- Between its quotes an argument weighs what it weighs, or less. -/
theorem runs_escaped_le (n : Nat) (arg : Text) :
    runs n (escaped arg ++ ['"']) ≤ 2 * n + weight arg ∧
      (runs n (escaped arg ++ ['"']) = 2 * n + weight arg → PlainAfter n arg) := by
  induction arg generalizing n with
  | nil =>
    have hruns : runs n ['"'] = n := rfl
    rw [escaped_nil, List.nil_append, hruns, Argv.weight_nil, plainAfter_nil]
    omega
  | cons c arg ih =>
    have hweight : weight (c :: arg) = weight [c] + weight arg := Argv.weight_append [c] arg
    by_cases hback : c = '\\'
    · subst hback
      have hone : weight ['\\'] = 2 := by decide
      obtain ⟨hle, heq⟩ := ih (n + 1)
      rw [escaped_other (by decide), List.cons_append, runs, if_pos rfl, plainAfter_backslash,
        hweight, hone]
      exact ⟨by omega, fun h => heq (by omega)⟩
    · by_cases hquote : c = '"'
      · subst hquote
        have hone : weight ['"'] = 1 := by decide
        obtain ⟨hle, heq⟩ := ih 0
        have hruns : runs n (escaped ('"' :: arg) ++ ['"']) =
            n + 1 + runs 0 (escaped arg ++ ['"']) := rfl
        rw [hruns, plainAfter_quote, hweight, hone]
        exact ⟨by omega, fun h => ⟨by omega, heq (by omega)⟩⟩
      · obtain ⟨hle, heq⟩ := ih 0
        rw [escaped_other hquote, List.cons_append, runs, if_neg hback, if_neg hquote,
          plainAfter_other hback hquote, hweight, Argv.weight_other hback hquote]
        exact ⟨by omega, fun h => heq (by omega)⟩

theorem runs_arguments_cons (arg : Text) (args : List Text) :
    runs 0 ((arg :: args).flatMap fun a => ' ' :: quoteArg a) =
      runs 0 (escaped arg ++ ['"']) + runs 0 (args.flatMap fun a => ' ' :: quoteArg a) := by
  have hline : (arg :: args).flatMap (fun a => ' ' :: quoteArg a) =
      ' ' :: '"' :: (escaped arg ++ '"' :: args.flatMap fun a => ' ' :: quoteArg a) := by
    simp [quoteArg_eq]
  rw [hline, ← runs_quote]
  show 2 * 0 + (0 + runs 0 _) = _
  omega

theorem runs_arguments_le (args : List Text) :
    runs 0 (args.flatMap fun a => ' ' :: quoteArg a) ≤ (args.map weight).sum ∧
      (runs 0 (args.flatMap fun a => ' ' :: quoteArg a) = (args.map weight).sum →
        ∀ a ∈ args, Plain a) := by
  induction args with
  | nil => simp [runs]
  | cons arg args ih =>
    obtain ⟨hle, heq⟩ := ih
    obtain ⟨hargle, hargeq⟩ := runs_escaped_le 0 arg
    rw [runs_arguments_cons, List.map_cons, List.sum_cons, List.forall_mem_cons]
    refine ⟨by omega, fun h => ⟨?_, heq (by omega)⟩⟩
    exact plainAfter_zero.mp (hargeq (by omega))

/-! ## The round trip -/

/-- The executable is read up to the quote that ends it. -/
theorem parse_commandLine (options : KernelProcessOptions) (h : '"' ∉ options.kernelExePath) :
    parse (commandLine options) = options.kernelExePath ::
      Argv.arguments none false 0
        ((commandArguments options).flatMap fun arg => ' ' :: quoteArg arg) := by
  have hexe : escaped options.kernelExePath = options.kernelExePath := by
    unfold escaped
    have hsame : ∀ c ∈ options.kernelExePath, (if c = '"' then ['\\', c] else [c]) = [c] := by
      intro c hc
      refine if_neg ?_
      rintro rfl
      exact h hc
    rw [List.flatMap_congr hsame]
    exact List.flatMap_singleton' _
  have hall : ∀ c ∈ options.kernelExePath, decide (c ≠ '"') = true := by
    intro c hc
    refine decide_eq_true ?_
    rintro rfl
    exact h hc
  unfold commandLine
  rw [quoteArg_eq, hexe, List.cons_append, List.append_assoc, List.singleton_append, parse,
    List.takeWhile_append_of_pos hall, List.dropWhile_append_of_pos hall]
  simp

/-- **The kernel gets its arguments** exactly if each of them is `Plain`. -/
theorem command_line_parses_iff (options : KernelProcessOptions)
    (h : '"' ∉ options.kernelExePath) :
    parse (commandLine options) = options.kernelExePath :: commandArguments options ↔
      ∀ a ∈ commandArguments options, Plain a := by
  rw [parse_commandLine options h]
  constructor
  · intro heq
    have hargs := (List.cons.inj heq).2
    refine (runs_arguments_le _).2 ?_
    rw [← Argv.weight_line, hargs]
  · intro hplain
    rw [arguments_plain hplain]
    rfl

/-- An interpreter in a directory with a space, and an argument with a quote. -/
def spaced : KernelProcessOptions :=
  { kernelExePath := "C:\\Jovian Files\\elara.exe".toList
    explicitArgs := ["".toList, "--name=\"a b\"".toList, "D:\\data".toList] }

theorem command_line_parses_iff_spaced :
    parse (commandLine spaced) = spaced.kernelExePath :: commandArguments spaced :=
  (command_line_parses_iff spaced (by decide)).mpr (by decide)

/-- A directory that ends in a backslash takes the quote that ends it, and what follows it. -/
theorem backslash_shifts_arguments :
    ¬ ∀ options : KernelProcessOptions, '"' ∉ options.kernelExePath →
      parse (commandLine options) = options.kernelExePath :: commandArguments options := by
  intro h
  have hparse := h { kernelExePath := "elara.exe".toList, rHome := "C:\\R\\".toList
                     rPath := "R.dll".toList } (by decide)
  exact absurd hparse (by decide)

end Jovian.CommandLine
