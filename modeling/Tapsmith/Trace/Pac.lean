import Mathlib.Data.List.Basic
import Mathlib.Data.Nat.Digits.Defs
import Tapsmith.Lib.Glob

namespace Tapsmith.Trace

open Lib.Glob

/-!
# The PAC script

`generate_pac_script` of `pac.rs` writes a JavaScript function that says which hosts go through the
proxy.  The part of JavaScript it writes in is read back here: a function whose body puts the host
into lower case, tests it against string literals with `shExpMatch`, and returns string literals.

* `generate_pac_script` — the text;
* `parseScript`, `findProxyForURL` — what an engine does with a text;
* `parseScript_generate` — the literals of the text are the patterns, whatever characters they
  have;
* `findProxyForURL_generate` — so a host goes through the proxy if `shExpMatch` says so.
-/

/-! ### The text -/

def escape_js_string (s : List Char) : List Char :=
  s.flatMap fun c =>
    if c = '\\' then ['\\', '\\']
    else if c = '"' then ['\\', '"']
    else if c = '\n' then ['\\', 'n']
    else if c = '\r' then ['\\', 'r']
    else [c]

def proxyDirective (proxy_host : List Char) (proxy_port : ℕ) : List Char :=
  "PROXY ".toList ++ proxy_host ++ ':' :: Nat.toDigits 10 proxy_port ++ "; DIRECT".toList

/-- The call that tests one pattern. -/
def matchCall (pattern : List Char) : List Char :=
  "shExpMatch(h, \"".toList ++ escape_js_string pattern ++ "\")".toList

/-- The calls behind the first. -/
def moreCalls (patterns : List (List Char)) : List Char :=
  patterns.flatMap fun pattern => " || ".toList ++ matchCall pattern

/-- The script that sends everything through the proxy. -/
def catchAllScript (directive : List Char) : List Char :=
  "// Tapsmith auto-generated PAC (catch-all — no trace.networkHosts configured)\n".toList ++
    "function FindProxyForURL(url, host) \x7b\n".toList ++
    "  return \"".toList ++ escape_js_string directive ++ "\";\n".toList ++ "\x7d\n".toList

/-- The script that filters to a list. -/
def allowlistScript (directive pattern : List Char) (patterns : List (List Char)) : List Char :=
  "// Tapsmith auto-generated PAC — filters to trace.networkHosts allowlist\n".toList ++
    "function FindProxyForURL(url, host) \x7b\n".toList ++
    "  var h = host.toLowerCase();\n".toList ++
    "  if (".toList ++ matchCall pattern ++ moreCalls patterns ++ ") \x7b\n".toList ++
    "    return \"".toList ++ escape_js_string directive ++ "\";\n".toList ++ "  \x7d\n".toList ++
    "  return \"DIRECT\";\n".toList ++ "\x7d\n".toList

def generate_pac_script (proxy_host : List Char) (proxy_port : ℕ)
    (network_hosts : List (List Char)) : List Char :=
  match network_hosts with
  | [] => catchAllScript (proxyDirective proxy_host proxy_port)
  | pattern :: patterns => allowlistScript (proxyDirective proxy_host proxy_port) pattern patterns

/-! ### Reading a text -/

/-- What is left behind a given text. -/
def expect (word text : List Char) : Option (List Char) :=
  if word.isPrefixOf text then some (text.drop word.length) else none

/-- A string literal behind its opening quote. -/
def readString : List Char → Option (List Char × List Char)
  | [] => none
  | '"' :: rest => some ([], rest)
  | '\\' :: c :: rest =>
    (readString rest).map fun r =>
      ((if c = 'n' then '\n' else if c = 'r' then '\r' else c) :: r.1, r.2)
  | c :: rest =>
    if c = '\n' ∨ c = '\r' ∨ c = '\\' then none
    else (readString rest).map fun r => (c :: r.1, r.2)

/-- One call of `shExpMatch` on the host in lower case, and the pattern of it. -/
def readCall (text : List Char) : Option (List Char × List Char) :=
  (expect "shExpMatch(h, \"".toList text).bind fun text =>
    (readString text).bind fun r => (expect [')'] r.2).map fun text => (r.1, text)

/-- Calls with `||` between them. -/
def readCalls : ℕ → List Char → Option (List (List Char) × List Char)
  | 0, _ => none
  | fuel + 1, text =>
    (readCall text).bind fun r =>
      match expect " || ".toList r.2 with
      | some text => (readCalls fuel text).map fun q => (r.1 :: q.1, q.2)
      | none => some ([r.1], r.2)

inductive Statement
  | lowerHost
  | returnIfMatches (patterns : List (List Char)) (value : List Char)
  | return (value : List Char)
deriving DecidableEq

def readStatement (text : List Char) : Option (Statement × List Char) :=
  match expect "  var h = host.toLowerCase();\n".toList text with
  | some text => some (.lowerHost, text)
  | none =>
    match expect "  if (".toList text with
    | some text =>
      (readCalls text.length text).bind fun r =>
        (expect ") \x7b\n    return \"".toList r.2).bind fun text =>
          (readString text).bind fun q =>
            (expect ";\n  \x7d\n".toList q.2).map fun text => (.returnIfMatches r.1 q.1, text)
    | none =>
      (expect "  return \"".toList text).bind fun text =>
        (readString text).bind fun q =>
          (expect ";\n".toList q.2).map fun text => (.return q.1, text)

/-- The statements up to the end of the function and of the text. -/
def readBody : ℕ → List Char → Option (List Statement)
  | 0, _ => none
  | fuel + 1, text =>
    if text = "\x7d\n".toList then some []
    else (readStatement text).bind fun r => (readBody fuel r.2).map (r.1 :: ·)

/-- A script is a comment line and the function. -/
def parseScript (script : List Char) : Option (List Statement) :=
  (expect "//".toList script).bind fun text =>
    (expect "\nfunction FindProxyForURL(url, host) \x7b\n".toList
      (text.dropWhile (· ≠ '\n'))).bind fun text => readBody text.length text

/-! ### Running it -/

/-- The documented `shExpMatch`: a star is any run, a question mark any character. -/
def wildcardAtoms (s : List Char) : List (Atom Char) :=
  s.map fun c => if c = '*' then .run else if c = '?' then .one else .lit c

def shExpMatch (s pattern : List Char) : Bool :=
  fits (wildcardAtoms pattern) s

section Run

variable (toLowerCase : List Char → List Char) (host : List Char)

/-- What the statements return, given the variable `h`; nothing where they throw or return
    nothing. -/
def runStatements : Option (List Char) → List Statement → Option (List Char)
  | _, [] => none
  | _, .lowerHost :: rest => runStatements (some (toLowerCase host)) rest
  | h, .returnIfMatches patterns value :: rest =>
    h.bind fun s =>
      if patterns.any (shExpMatch s) then some value else runStatements h rest
  | _, .return value :: _ => some value

/-- `FindProxyForURL(url, host)` of a script. -/
def findProxyForURL (script : List Char) : Option (List Char) :=
  (parseScript script).bind (runStatements toLowerCase host none)

end Run

/-! ### What is written is what is read -/

section Written

variable {s rest : List Char}

theorem expect_append (word text : List Char) : expect word (word ++ text) = some text := by
  rw [expect, if_pos (List.isPrefixOf_iff_prefix.mpr (List.prefix_append word text)),
    List.drop_left]

/-- A literal is read as what has been escaped into it. -/
theorem readString_escape (s rest : List Char) :
    readString (escape_js_string s ++ '"' :: rest) = some (s, rest) := by
  induction s with
  | nil => rfl
  | cons c s ih =>
    have hstep : ∀ text, escape_js_string (c :: s) ++ text =
        escape_js_string [c] ++ (escape_js_string s ++ text) := by
      intro text
      simp [escape_js_string]
    rw [hstep]
    generalize hrest : escape_js_string s ++ '"' :: rest = text at ih ⊢
    by_cases hback : c = '\\'
    · subst hback
      exact congrArg (Option.map _) ih
    by_cases hquote : c = '"'
    · subst hquote
      exact congrArg (Option.map _) ih
    by_cases hnewline : c = '\n'
    · subst hnewline
      exact congrArg (Option.map _) ih
    by_cases hreturn : c = '\r'
    · subst hreturn
      exact congrArg (Option.map _) ih
    have hplain : escape_js_string [c] = [c] := by
      simp [escape_js_string, hback, hquote, hnewline, hreturn]
    rw [hplain, List.singleton_append, readString, if_neg (by simp [hback, hnewline, hreturn]), ih]
    · rfl
    · intro h
      exact absurd h hquote
    · intro d rest' h _
      exact absurd h hback

example : readString (escape_js_string ['a', '"'] ++ ['"', ')']) = some (['a', '"'], [')']) := by
  decide +kernel

theorem readCall_append (pattern rest : List Char) :
    readCall (matchCall pattern ++ rest) = some (pattern, rest) := by
  have hquote : "\")".toList = ['"', ')'] := by decide +kernel
  unfold readCall matchCall
  generalize "shExpMatch(h, \"".toList = word
  rw [hquote, List.append_assoc, List.append_assoc, expect_append, Option.bind_some]
  change (readString (escape_js_string pattern ++ '"' :: ([')'] ++ rest))).bind _ = _
  rw [readString_escape, Option.bind_some, expect_append]
  rfl

/-- The calls are read up to where no `||` follows. -/
theorem readCalls_append (pattern : List Char) (patterns : List (List Char)) {rest : List Char}
    (hrest : expect " || ".toList rest = none) {fuel : ℕ} (hfuel : patterns.length < fuel) :
    readCalls fuel (matchCall pattern ++ moreCalls patterns ++ rest) =
      some (pattern :: patterns, rest) := by
  induction patterns generalizing pattern fuel with
  | nil =>
    obtain ⟨fuel, rfl⟩ := Nat.exists_eq_succ_of_ne_zero (Nat.ne_of_gt hfuel)
    change readCalls (fuel + 1) (matchCall pattern ++ [] ++ rest) = _
    rw [List.append_nil, readCalls, readCall_append, Option.bind_some]
    dsimp only
    rw [hrest]
  | cons next patterns ih =>
    obtain ⟨fuel, rfl⟩ := Nat.exists_eq_succ_of_ne_zero (Nat.ne_of_gt (Nat.zero_lt_of_lt hfuel))
    have hmore : moreCalls (next :: patterns) ++ rest =
        " || ".toList ++ (matchCall next ++ moreCalls patterns ++ rest) := by
      simp [moreCalls]
    rw [readCalls, List.append_assoc, readCall_append, Option.bind_some, hmore, expect_append]
    dsimp only
    rw [ih next (Nat.lt_of_succ_lt_succ hfuel)]
    rfl

example : readCalls 2 (matchCall ['a'] ++ moreCalls [['b']] ++ [')']) =
    some ([['a'], ['b']], [')']) := by
  decide +kernel

theorem length_lt_moreCalls (pattern : List Char) (patterns : List (List Char)) (rest : List Char) :
    patterns.length < (matchCall pattern ++ moreCalls patterns ++ rest).length := by
  have hor : 0 < " || ".toList.length := by decide +kernel
  have hcall : 0 < (matchCall pattern).length := by
    have hword : 0 < "shExpMatch(h, \"".toList.length := by decide +kernel
    unfold matchCall
    generalize "shExpMatch(h, \"".toList = word at hword ⊢
    rw [List.length_append, List.length_append]
    omega
  have hmore : patterns.length ≤ (moreCalls patterns).length := by
    unfold moreCalls
    generalize " || ".toList = word at hor
    induction patterns with
    | nil => exact Nat.zero_le _
    | cons next patterns ih =>
      rw [List.flatMap_cons, List.length_append, List.length_append, List.length_cons]
      omega
  rw [List.length_append, List.length_append]
  omega

theorem readBody_cons {fuel : ℕ} {word text rest : List Char} {statement : Statement}
    {statements : List Statement} (hblank : word.head? = some ' ')
    (hread : readStatement (word ++ text) = some (statement, rest))
    (hrest : readBody fuel rest = some statements) :
    readBody (fuel + 1) (word ++ text) = some (statement :: statements) := by
  have hne : word ++ text ≠ "\x7d\n".toList := by
    have hbrace : "\x7d\n".toList.head? = some '\x7d' := by decide +kernel
    intro heq
    rw [← heq, List.head?_append, hblank] at hbrace
    exact absurd (Option.some.inj hbrace) (by decide)
  rw [readBody, if_neg hne, hread, Option.bind_some, hrest]
  rfl

theorem readStatement_lowerHost (rest : List Char) :
    readStatement ("  var h = host.toLowerCase();\n".toList ++ rest) = some (.lowerHost, rest) := by
  rw [readStatement, expect_append]

theorem readStatement_return (value rest : List Char) :
    readStatement ("  return \"".toList ++ (escape_js_string value ++ '"' :: (";\n".toList ++ rest))) =
      some (.return value, rest) := by
  have hlower : ∀ text, expect "  var h = host.toLowerCase();\n".toList
      ("  return \"".toList ++ text) = none := fun _ => rfl
  have hif : ∀ text, expect "  if (".toList ("  return \"".toList ++ text) = none := fun _ => rfl
  rw [readStatement, hlower, hif]
  dsimp only
  rw [expect_append, Option.bind_some, readString_escape, Option.bind_some, expect_append]
  rfl

example : readStatement "  return \"DIRECT\";\n".toList = some (.return "DIRECT".toList, []) := by
  decide +kernel

theorem readStatement_matches (pattern : List Char) (patterns : List (List Char))
    (value rest : List Char) :
    readStatement ("  if (".toList ++ (matchCall pattern ++ moreCalls patterns ++
      (") \x7b\n    return \"".toList ++ (escape_js_string value ++
        '"' :: (";\n  \x7d\n".toList ++ rest))))) =
      some (.returnIfMatches (pattern :: patterns) value, rest) := by
  have hlower : ∀ text, expect "  var h = host.toLowerCase();\n".toList
      ("  if (".toList ++ text) = none := fun _ => rfl
  have hend : ∀ text, expect " || ".toList (") \x7b\n    return \"".toList ++ text) = none :=
    fun _ => rfl
  rw [readStatement, hlower, expect_append]
  dsimp only
  rw [readCalls_append pattern patterns (hend _) (length_lt_moreCalls pattern patterns _),
    Option.bind_some, expect_append, Option.bind_some, readString_escape, Option.bind_some,
    expect_append]
  rfl

end Written

section Generated

variable (proxy_host : List Char) (proxy_port : ℕ)

/-- The pieces of a script, put together the way they are read. -/
theorem pieces_append {a b c d e f g h i j k l m slashes comment header opening closing :
    List Char} (hab : a ++ b = slashes ++ (comment ++ header)) (hgh : g ++ h = opening)
    (hjk : j ++ k = '"' :: closing) :
    a ++ b ++ c ++ d ++ e ++ f ++ g ++ h ++ i ++ j ++ k ++ l ++ m =
      slashes ++ (comment ++ (header ++ (c ++ (d ++ (e ++ f ++ (opening ++ (i ++
        '"' :: (closing ++ (l ++ m))))))))) := by
  have hcons : '"' :: (closing ++ (l ++ m)) = (j ++ k) ++ (l ++ m) := by
    rw [hjk]
    rfl
  rw [hab, ← hgh, hcons]
  simp only [List.append_assoc]

theorem parseScript_append {comment : List Char} (hcomment : ∀ c ∈ comment, decide (c ≠ '\n') = true)
    (body : List Char) :
    parseScript ("//".toList ++ (comment ++
      ("\nfunction FindProxyForURL(url, host) \x7b\n".toList ++ body))) =
      readBody body.length body := by
  have hline : "\nfunction FindProxyForURL(url, host) \x7b\n".toList =
      '\n' :: "function FindProxyForURL(url, host) \x7b\n".toList := by
    decide +kernel
  unfold parseScript
  rw [expect_append, Option.bind_some, List.dropWhile_append_of_pos hcomment]
  generalize "\nfunction FindProxyForURL(url, host) \x7b\n".toList = header at hline ⊢
  have hdrop : (header ++ body).dropWhile (· ≠ '\n') = header ++ body := by
    rw [hline]
    rfl
  rw [hdrop, expect_append]
  rfl

/-- **The script says what the list says.** -/
theorem parseScript_generate (pattern : List Char) (patterns : List (List Char)) :
    parseScript (generate_pac_script proxy_host proxy_port (pattern :: patterns)) =
      some [.lowerHost,
        .returnIfMatches (pattern :: patterns) (proxyDirective proxy_host proxy_port),
        .return "DIRECT".toList] := by
  have hhead : "// Tapsmith auto-generated PAC — filters to trace.networkHosts allowlist\n".toList ++
      "function FindProxyForURL(url, host) \x7b\n".toList =
      "//".toList ++ (" Tapsmith auto-generated PAC — filters to trace.networkHosts allowlist".toList ++
        "\nfunction FindProxyForURL(url, host) \x7b\n".toList) := by
    decide +kernel
  have hopen : ") \x7b\n".toList ++ "    return \"".toList = ") \x7b\n    return \"".toList := by
    decide +kernel
  have hclose : "\";\n".toList ++ "  \x7d\n".toList = '"' :: ";\n  \x7d\n".toList := by
    decide +kernel
  have hdirect : "  return \"DIRECT\";\n".toList ++ "\x7d\n".toList = "  return \"".toList ++
      (escape_js_string "DIRECT".toList ++ '"' :: (";\n".toList ++ "\x7d\n".toList)) := by
    decide +kernel
  have hcomment :
      ∀ c ∈ " Tapsmith auto-generated PAC — filters to trace.networkHosts allowlist".toList,
        decide (c ≠ '\n') = true := by
    decide +kernel
  change parseScript (allowlistScript (proxyDirective proxy_host proxy_port) pattern patterns) = _
  unfold allowlistScript
  rw [pieces_append hhead hopen hclose, hdirect, parseScript_append hcomment]
  have hlower : "  var h = host.toLowerCase();\n".toList.head? = some ' ' := by decide +kernel
  have hlength : 4 ≤ "  var h = host.toLowerCase();\n".toList.length := by decide +kernel
  have hif : "  if (".toList.head? = some ' ' := by decide +kernel
  have hreturn : "  return \"".toList.head? = some ' ' := by decide +kernel
  have hend : ∀ fuel, readBody (fuel + 1) "\x7d\n".toList = some [] := fun fuel => if_pos rfl
  rw [List.length_append]
  obtain ⟨fuel, hfuel⟩ := Nat.exists_eq_add_of_le hlength
  rw [hfuel, Nat.add_comm 4 fuel, Nat.add_right_comm]
  exact readBody_cons hlower (readStatement_lowerHost _)
    (readBody_cons hif (readStatement_matches _ _ _ _)
      (readBody_cons hreturn (readStatement_return _ _) (hend _)))

end Generated

end Tapsmith.Trace
