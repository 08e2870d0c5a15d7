import Tapsmith.Lib.Entries
import Tapsmith.Lib.Search
import Tapsmith.Lib.Text
import Tapsmith.Lib.Utf8

namespace Tapsmith.Reset.Link

open Lib Lib.Search Lib.Text

/-!
# Reset links

The deep link that asks the app for a reset: the daemon builds it (`app_reset.rs`) from the prefix
that the app's module published, a target path and a nonce, and the module takes it apart again
(`protocol.ts`).

* `build_reset_url`, `parseResetRequest` — the two sides;
* `UrlPrefix` — the prefixes that the module publishes;
* `parse_build` — what becomes of a link, for every prefix and target;
* `parse_build_iff` — the targets for which it is the request that was meant.
-/

/-! ### The daemon's side -/

def RESET_QUERY_FLAG : List Char := "__tapsmith_reset=1".toList

/-- The path of a target, and its query if there is one. -/
def targetParts (target : List Char) : List Char × Option (List Char) :=
  match splitOnce '?' target with
  | some (p, q) => if q ≠ [] then (p, some q) else (p, none)
  | none => (target, none)

def build_reset_url ( url_prefix target_path nonce : List Char) : List Char :=
  let base := if url_prefix.getLast? = some '/' then url_prefix else url_prefix ++ ['/']
  let parts := targetParts ((trim target_path).dropWhile (· == '/'))
  let sep_query := parts.2.elim [] (· ++ ['&'])
  base ++ parts.1 ++ '?' :: (sep_query ++ RESET_QUERY_FLAG ++ "&nonce=".toList ++ nonce)

/-! ### The module's side -/

/-- The bytes of a text whose percent escapes are undone. -/
def percentBytes : List Char → Option (List UInt8)
  | '%' :: a :: b :: rest =>
    match toDigit 16 a, toDigit 16 b with
    | some x, some y => (percentBytes rest).map (UInt8.ofNat (16 * x + y) :: ·)
    | _, _ => none
  | '%' :: _ => none
  | c :: rest => (percentBytes rest).map (String.utf8EncodeChar c ++ ·)
  | [] => some []

/-- None where it throws a `URIError`. -/
def decodeURIComponent (s : List Char) : Option (List Char) :=
  (percentBytes s).bind Utf8.fromUtf8

def safeDecode (s : List Char) : List Char :=
  (decodeURIComponent (s.map fun c => if c = '+' then ' ' else c)).getD s

def resetQueryFlag : List Char := "__tapsmith_reset".toList

/-- One turn of the loop over the pairs of the query. -/
def setParam (params : List (List Char × List Char)) (pair : List Char) :
    List (List Char × List Char) :=
  if pair = [] then params
  else
    let field := (splitOnce '=' pair).getD (pair, [])
    Entries.put (safeDecode field.1) (safeDecode field.2) params

def queryParams (query : List Char) : List (List Char × List Char) :=
  (query.splitOn '&').foldl setParam []

def withSlash (rest : List Char) : List Char :=
  if rest.head? = some '/' then rest else '/' :: rest

def webSchemes : List (List Char) :=
  ["http".toList, "https".toList, "exp".toList, "exps".toList]

/-- The rest of an address outside Expo Go: the host of a web address is dropped. -/
def addressRoute (scheme rest : List Char) : List Char :=
  if scheme ∈ webSchemes then (position ['/'] rest).elim ['/'] rest.drop else withSlash rest

def routeOf (urlWithoutQuery : List Char) : List Char :=
  let schemeEnd := position "://".toList urlWithoutQuery
  let rest := schemeEnd.elim urlWithoutQuery fun i => urlWithoutQuery.drop (i + 3)
  withSlash <| (position "/--/".toList rest).elim
    (schemeEnd.elim rest fun i => addressRoute (urlWithoutQuery.take i) rest)
    fun expoGo => rest.drop (expoGo + 3)

structure ResetRequest where
  target : List Char
  nonce : List Char
  deriving DecidableEq

/-- The request that the parameters of a query make, but for its target. -/
def requestNonce (query : List Char) : Option (List Char) :=
  let params := queryParams query
  if (Entries.get resetQueryFlag params).isSome then
    some ((Entries.get "nonce".toList params).getD [])
  else none

def parseResetRequest (url : List Char) : Option ResetRequest :=
  (splitOnce '?' url).bind fun parts =>
    (requestNonce (parts.2.takeWhile (· ≠ '#'))).map fun nonce =>
      { target := routeOf parts.1, nonce }

/-! ### Prefixes -/

/-- What follows the `://` of a prefix: nothing or a slash behind the scheme of an app, Expo Go's
    host and its double dash between slashes, or the host of a web address. -/
inductive PrefixKind
  | app
  | appRoot
  | expo (host : List Char)
  | web (host : List Char)

def PrefixKind.text : PrefixKind → List Char
  | .app => []
  | .appRoot => ['/']
  | .expo host => host ++ "/--/".toList
  | .web host => host ++ ['/']

def PrefixKind.host : PrefixKind → List Char
  | .app => []
  | .appRoot => []
  | .expo host => host
  | .web host => host

/-- A prefix that the module publishes. -/
structure UrlPrefix where
  scheme : List Char
  kind : PrefixKind
  scheme_chars : ':' ∉ scheme ∧ '?' ∉ scheme
  host_chars : '/' ∉ kind.host ∧ '?' ∉ kind.host
  scheme_app : kind = .app ∨ kind = .appRoot → scheme ∉ webSchemes
  scheme_web : ∀ host, kind = .web host → scheme ∈ webSchemes

def UrlPrefix.text (p : UrlPrefix) : List Char := p.scheme ++ "://".toList ++ p.kind.text

/-! ### Targets -/

/-- The route of a target path: its part before any `?` or `#`, with a leading slash. -/
def routeOfTarget (target : List Char) : List Char :=
  '/' :: (target.takeWhile fun c => c ≠ '?' ∧ c ≠ '#').dropWhile (· == '/')

/-- The part of a target before its `?`, without the leading slashes. -/
def pathOf (target : List Char) : List Char :=
  (target.dropWhile (· == '/')).takeWhile (· ≠ '?')

def queryOf (target : List Char) : List Char :=
  ((target.dropWhile (· == '/')).dropWhile (· ≠ '?')).tail

theorem routeOfTarget_eq (target : List Char) :
    routeOfTarget target = '/' :: (pathOf target).takeWhile (· ≠ '#') := by
  unfold routeOfTarget pathOf
  congr 1
  induction target with
  | nil => rfl
  | cons c target ih =>
    by_cases hslash : c = '/'
    · subst hslash
      rw [List.takeWhile_cons_of_pos (by decide), List.dropWhile_cons_of_pos (by decide),
        List.dropWhile_cons_of_pos (by decide), ih]
    · have hc : (c == '/') = false := beq_false_of_ne hslash
      have hboth : ∀ l : List Char, (l.takeWhile (· ≠ '?')).takeWhile (· ≠ '#') =
          l.takeWhile fun c => c ≠ '?' ∧ c ≠ '#' := by
        intro l
        rw [List.takeWhile_takeWhile]
        congr 1
        funext c
        exact decide_eq_decide.mpr (by simp only [decide_eq_true_eq]; exact and_comm)
      rw [List.dropWhile_cons, hc, if_neg Bool.false_ne_true, hboth, List.takeWhile_cons]
      split
      · rw [List.dropWhile_cons, hc, if_neg Bool.false_ne_true]
      · rfl

/-- What the daemon appends to the query of a target. -/
def separated (query : List Char) : List Char := if query = [] then [] else query ++ ['&']

def resetFields (nonce : List Char) : List Char :=
  RESET_QUERY_FLAG ++ "&nonce=".toList ++ nonce

theorem targetParts_eq (target : List Char) :
    (targetParts target).1 = target.takeWhile (· ≠ '?') ∧
      (targetParts target).2.elim [] (· ++ ['&']) =
        separated (target.dropWhile (· ≠ '?')).tail := by
  unfold targetParts separated
  by_cases hquery : '?' ∈ target
  · have hsplit : splitOnce '?' target =
        some (target.takeWhile (· ≠ '?'), (target.dropWhile (· ≠ '?')).tail) := if_pos hquery
    rw [hsplit]
    by_cases hempty : (target.dropWhile (· ≠ '?')).tail = []
    · simp only [hempty, ne_eq, not_true_eq_false, if_false, if_true, Option.elim_none, and_self]
    · simp only [hempty, ne_eq, not_false_eq_true, if_true, if_false, Option.elim_some, and_self]
  · have hsplit : splitOnce '?' target = none := if_neg hquery
    have hall : ∀ c ∈ target, Decidable.decide (c ≠ '?') = true := fun c hc => by
      simpa using fun h : c = '?' => hquery (h ▸ hc)
    rw [hsplit, List.takeWhile_eq_self_iff.mpr hall, List.dropWhile_eq_nil_iff.mpr hall]
    exact ⟨rfl, rfl⟩

/-- The link in terms of the parts of the target. -/
theorem build_reset_url_eq {p target : List Char} (hp : p.getLast? = some '/')
    (htrim : trim target = target) (nonce : List Char) :
    build_reset_url p target nonce =
      p ++ pathOf target ++ '?' :: (separated (queryOf target) ++ resetFields nonce) := by
  obtain ⟨hpath, hquery⟩ := targetParts_eq (target.dropWhile (· == '/'))
  unfold build_reset_url pathOf queryOf resetFields
  dsimp only
  rw [htrim, if_pos hp, hpath, hquery]
  simp only [List.append_assoc]

/-! ### The fields of the link -/

/-- Where nothing is escaped, nothing changes. -/
theorem safeDecode_plain {s : List Char} (hpercent : '%' ∉ s) (hplus : '+' ∉ s) :
    safeDecode s = s := by
  have hmap : s.map (fun c => if c = '+' then ' ' else c) = s := by
    calc s.map (fun c => if c = '+' then ' ' else c) = s.map fun c => c :=
          List.map_congr_left fun c hc => if_neg fun h : c = '+' => hplus (h ▸ hc)
      _ = s := List.map_id' s
  have hbytes : percentBytes s = some (Utf8.encode s) := by
    clear hmap hplus
    induction s with
    | nil => rfl
    | cons c s ih =>
      rw [List.mem_cons, not_or] at hpercent
      have hstep : percentBytes (c :: s) =
          (percentBytes s).map (String.utf8EncodeChar c ++ ·) := by
        rw [percentBytes]
        · rintro a b rest rfl
          exact absurd rfl hpercent.1
        · rintro rfl
          exact absurd rfl hpercent.1
      rw [hstep, ih hpercent.2]
      rfl
  unfold safeDecode decodeURIComponent
  rw [hmap, hbytes, Option.bind_some, Utf8.fromUtf8_eq_some.mpr rfl]
  rfl

/-- The characters of a nonce of hexadecimal digits. -/
theorem notMem_of_hex {nonce : List Char} (h : ∀ c ∈ nonce, (toDigit 16 c).isSome) {c : Char}
    (hc : toDigit 16 c = none) : c ∉ nonce := by
  intro hmem
  have := h c hmem
  rw [hc] at this
  cases this

theorem queryParams_append (query more : List Char) :
    queryParams (query ++ '&' :: more) =
      (more.splitOn '&').foldl setParam (queryParams query) := by
  unfold queryParams
  rw [List.splitOn_append_cons_self, List.foldl_append]

/-- The last two parameters of a link are its flag and its nonce. -/
theorem requestNonce_resetFields {nonce : List Char}
    (hnonce : ∀ c ∈ nonce, (toDigit 16 c).isSome) (query : List Char) :
    requestNonce (separated query ++ resetFields nonce) = some nonce := by
  have hamp : '&' ∉ nonce := notMem_of_hex hnonce (by decide)
  have hdecode : safeDecode nonce = nonce :=
    safeDecode_plain (notMem_of_hex hnonce (by decide)) (notMem_of_hex hnonce (by decide))
  have hfields : (resetFields nonce).splitOn '&' =
      [RESET_QUERY_FLAG, "nonce=".toList ++ nonce] := by
    have hsplit : resetFields nonce = RESET_QUERY_FLAG ++ '&' :: ("nonce=".toList ++ nonce) := by
      unfold resetFields
      rw [List.append_assoc]
      rfl
    have hflag : RESET_QUERY_FLAG.splitOn '&' = [RESET_QUERY_FLAG] :=
      List.splitOn_eq_singleton (by decide)
    rw [hsplit, List.splitOn_append_cons_self, hflag, List.splitOn_eq_singleton]
    · rfl
    · rw [List.mem_append, not_or]
      exact ⟨by decide, hamp⟩
  have hflag : ∀ params, setParam params RESET_QUERY_FLAG =
      Entries.put resetQueryFlag "1".toList params := fun params => by
    have hk : safeDecode resetQueryFlag = resetQueryFlag := by decide +kernel
    have hv : safeDecode "1".toList = "1".toList := by decide +kernel
    show Entries.put (safeDecode resetQueryFlag) (safeDecode "1".toList) params = _
    rw [hk, hv]
  have hlast : ∀ params, setParam params ("nonce=".toList ++ nonce) =
      Entries.put "nonce".toList nonce params := fun params => by
    have hk : safeDecode "nonce".toList = "nonce".toList := by decide +kernel
    have hpair : splitOnce '=' ("nonce".toList ++ '=' :: nonce) = some ("nonce".toList, nonce) :=
      splitOnce_append (by decide)
    have htext : "nonce=".toList ++ nonce = "nonce".toList ++ '=' :: nonce := rfl
    unfold setParam
    rw [if_neg (by simp)]
    dsimp only
    rw [htext, hpair, Option.getD_some, hk, hdecode]
  have hparams : ∃ params, queryParams (separated query ++ resetFields nonce) =
      Entries.put "nonce".toList nonce (Entries.put resetQueryFlag "1".toList params) := by
    unfold separated
    split
    · refine ⟨[], ?_⟩
      rw [List.nil_append, queryParams, hfields, List.foldl_cons, List.foldl_cons,
        List.foldl_nil, hflag, hlast]
    · refine ⟨queryParams query, ?_⟩
      rw [List.append_assoc, List.singleton_append, queryParams_append, hfields,
        List.foldl_cons, List.foldl_cons, List.foldl_nil, hflag, hlast]
  obtain ⟨params, hparams⟩ := hparams
  have hname : resetQueryFlag ≠ "nonce".toList := by decide
  unfold requestNonce
  rw [hparams]
  simp only [Entries.get_put, hname, if_false, if_true, Option.isSome_some, Option.getD_some]

/-! ### The route of the link -/

/-- What a path is cut to at a later double dash between slashes, where the prefix has none of its
    own. -/
def PrefixKind.later (kind : PrefixKind) (path : List Char) : Option (List Char) :=
  match kind with
  | .expo _ => none
  | .app => (position "/--/".toList path).map fun k => path.drop (k + 3)
  | _ => (position "/--/".toList ('/' :: path)).map fun k => ('/' :: path).drop (k + 3)

theorem position_head {w : List Char} (hw : w ≠ []) (l : List Char) :
    position w (w ++ l) = some 0 := by
  cases w with
  | nil => exact absurd rfl hw
  | cons c w =>
    rw [List.cons_append, position_cons, if_pos]
    exact List.prefix_append _ _

theorem withSlash_drop {l : List Char} {k : ℕ} (h : position "/--/".toList l = some k) :
    withSlash (l.drop (k + 3)) = l.drop (k + 3) := by
  obtain ⟨t, ht⟩ := (position_eq_some.mp h).1
  have hdrop : l.drop (k + 3) = '/' :: t := by
    rw [← List.drop_drop, ← ht]
    rfl
  rw [hdrop]
  rfl

/-- **The route of the part of a link before its query.** -/
theorem routeOf_text (p : UrlPrefix) {path : List Char} (hpath : path.head? ≠ some '/') :
    routeOf (p.text ++ path) = (p.kind.later path).getD ('/' :: path) := by
  obtain ⟨scheme, kind, hchars, hhosts, happ, hweb⟩ := p
  have hcolon := hchars.1
  have hslash := hhosts.1
  have hend : position "://".toList (scheme ++ ("://".toList ++ (kind.text ++ path))) =
      some scheme.length := by
    have hskip := position_skip (w := "//".toList) hcolon ("://".toList ++ (kind.text ++ path))
    have hhead := position_head (w := "://".toList) (by decide) (kind.text ++ path)
    exact hskip.trans (by rw [show (':' :: "//".toList) = "://".toList from rfl, hhead]; rfl)
  have hrest : (scheme ++ ("://".toList ++ (kind.text ++ path))).drop (scheme.length + 3) =
      kind.text ++ path := by
    rw [← List.drop_drop, List.drop_left]
    rfl
  have hscheme : (scheme ++ ("://".toList ++ (kind.text ++ path))).take scheme.length = scheme :=
    List.take_left
  have hroute : routeOf (UrlPrefix.text ⟨scheme, kind, hchars, hhosts, happ, hweb⟩ ++ path) =
      withSlash ((position "/--/".toList (kind.text ++ path)).elim
        (addressRoute scheme (kind.text ++ path)) fun k => (kind.text ++ path).drop (k + 3)) := by
    unfold UrlPrefix.text routeOf
    dsimp only
    rw [List.append_assoc, List.append_assoc, hend, Option.elim_some, Option.elim_some, hrest,
      hscheme]
  have hhost : ∀ (host more : List Char), '/' ∉ host → position "/--/".toList (host ++ more) =
      (position "/--/".toList more).map (host.length + ·) :=
    fun host more h => position_skip (w := "--/".toList) h more
  have hadd : withSlash path = '/' :: path := if_neg hpath
  rw [hroute]
  cases kind with
  | app =>
    show withSlash ((position "/--/".toList path).elim (addressRoute scheme path)
      fun k => path.drop (k + 3)) = _
    unfold PrefixKind.later
    cases hlater : position "/--/".toList path with
    | none =>
      have haddress : addressRoute scheme path = '/' :: path :=
        (if_neg (happ (.inl rfl))).trans hadd
      rw [Option.elim_none, haddress]
      rfl
    | some k => exact withSlash_drop hlater
  | appRoot =>
    show withSlash ((position "/--/".toList ('/' :: path)).elim (addressRoute scheme ('/' :: path))
      fun k => ('/' :: path).drop (k + 3)) = _
    unfold PrefixKind.later
    cases hlater : position "/--/".toList ('/' :: path) with
    | none =>
      have haddress : addressRoute scheme ('/' :: path) = '/' :: path := if_neg (happ (.inr rfl))
      rw [Option.elim_none, haddress]
      rfl
    | some k => exact withSlash_drop hlater
  | expo host =>
    have htext : (PrefixKind.expo host).text ++ path = host ++ ("/--/".toList ++ path) :=
      List.append_assoc _ _ _
    rw [htext, hhost host _ hslash, position_head (by decide), Option.map_some, Option.elim_some,
      Nat.add_zero, ← List.drop_drop, List.drop_left]
    rfl
  | web host =>
    have htext : (PrefixKind.web host).text ++ path = host ++ '/' :: path :=
      List.append_assoc _ _ _
    rw [htext, hhost host _ hslash]
    unfold PrefixKind.later
    cases hlater : position "/--/".toList ('/' :: path) with
    | none =>
      have hfirst : position ['/'] (host ++ '/' :: path) = some host.length := by
        have hskip := position_skip (l := host) (w := []) hslash ('/' :: path)
        rw [hskip, position_cons,
          if_pos (List.cons_prefix_cons.mpr ⟨rfl, List.nil_prefix⟩)]
        rfl
      have haddress : addressRoute scheme (host ++ '/' :: path) = '/' :: path := by
        unfold addressRoute
        rw [if_pos (hweb host rfl), hfirst, Option.elim_some, List.drop_left]
      rw [Option.map_none, Option.elim_none, haddress]
      rfl
    | some k =>
      have hdrop : (host ++ '/' :: path).drop (host.length + k + 3) =
          ('/' :: path).drop (k + 3) := by
        rw [Nat.add_assoc, ← List.drop_drop, List.drop_left]
      rw [Option.map_some, Option.elim_some, hdrop]
      exact withSlash_drop hlater

/-! ### The request that arrives -/

theorem UrlPrefix.getLast?_text (p : UrlPrefix) : p.text.getLast? = some '/' := by
  have happend : ∀ u v : List Char, (u ++ (v ++ ['/'])).getLast? = some '/' := by
    intro u v
    rw [← List.append_assoc]
    exact List.getLast?_concat
  obtain ⟨scheme, kind, -, -, -, -⟩ := p
  cases kind with
  | app =>
    show (scheme ++ (":/".toList ++ ['/']) ++ []).getLast? = some '/'
    rw [List.append_nil]
    exact happend _ _
  | appRoot => exact happend (scheme ++ "://".toList) []
  | expo host =>
    show (scheme ++ "://".toList ++ (host ++ ("/--".toList ++ ['/']))).getLast? = some '/'
    rw [← List.append_assoc host]
    exact happend _ _
  | web host => exact happend _ _

theorem UrlPrefix.notMem_text (p : UrlPrefix) : '?' ∉ p.text := by
  obtain ⟨scheme, kind, ⟨-, hscheme⟩, ⟨-, hhost⟩, -, -⟩ := p
  have hkind : '?' ∉ kind.text := by
    cases kind with
    | app => exact List.not_mem_nil
    | appRoot => decide
    | expo host => exact fun h => (List.mem_append.mp h).elim hhost (by decide)
    | web host => exact fun h => (List.mem_append.mp h).elim hhost (by decide)
  unfold UrlPrefix.text
  rw [List.mem_append, List.mem_append, not_or, not_or]
  exact ⟨⟨hscheme, by decide⟩, hkind⟩

theorem notMem_pathOf (target : List Char) : '?' ∉ pathOf target := by
  intro h
  have := List.mem_takeWhile_imp h
  simp at this

theorem head?_pathOf (target : List Char) : (pathOf target).head? ≠ some '/' := by
  unfold pathOf
  intro h
  cases hdrop : target.dropWhile (· == '/') with
  | nil =>
    rw [hdrop] at h
    cases h
  | cons c rest =>
    have hc : (c == '/') = false := by
      have := List.head_dropWhile_not (· == '/') (l := target) (by rw [hdrop]; simp)
      simpa [hdrop] using this
    rw [hdrop, List.takeWhile_cons] at h
    split at h
    · rw [List.head?_cons, Option.some.injEq] at h
      simp [h] at hc
    · cases h

/-- What the module reads of the query of a link. -/
def readQuery (query nonce : List Char) : Option (List Char) :=
  if '#' ∈ query then requestNonce (query.takeWhile (· ≠ '#')) else some nonce

/-- **What becomes of a link.** -/
theorem parse_build (p : UrlPrefix) {target nonce : List Char} (htrim : trim target = target)
    (hnonce : ∀ c ∈ nonce, (toDigit 16 c).isSome) :
    parseResetRequest (build_reset_url p.text target nonce) =
      (readQuery (queryOf target) nonce).map fun read =>
        { target := (p.kind.later (pathOf target)).getD ('/' :: pathOf target), nonce := read } := by
  have hquery : '?' ∉ p.text ++ pathOf target := by
    rw [List.mem_append, not_or]
    exact ⟨p.notMem_text, notMem_pathOf target⟩
  have hfields : '#' ∉ resetFields nonce := by
    unfold resetFields
    rw [List.mem_append, not_or]
    exact ⟨by decide, notMem_of_hex hnonce (by decide)⟩
  have hread : requestNonce ((separated (queryOf target) ++ resetFields nonce).takeWhile (· ≠ '#')) =
      readQuery (queryOf target) nonce := by
    unfold readQuery
    split
    case isTrue hfragment =>
      -- the fragment swallows what the daemon appended
      obtain ⟨u, v, huv, hu⟩ : ∃ u v, queryOf target = u ++ '#' :: v ∧ '#' ∉ u :=
        List.eq_append_cons_of_mem hfragment
      have hall : ∀ c ∈ u, Decidable.decide (c ≠ '#') = true := fun c hc => by
        simpa using fun h : c = '#' => hu (h ▸ hc)
      have hne : queryOf target ≠ [] := List.ne_nil_of_mem hfragment
      unfold separated
      rw [if_neg hne, huv, List.append_assoc, List.append_assoc, List.cons_append,
        List.takeWhile_append_of_pos hall, List.takeWhile_append_of_pos hall]
      rfl
    case isFalse hfragment =>
      have hall : ∀ c ∈ separated (queryOf target) ++ resetFields nonce,
          Decidable.decide (c ≠ '#') = true := by
        have hnot : '#' ∉ separated (queryOf target) ++ resetFields nonce := by
          unfold separated
          split
          · exact hfields
          · rw [List.mem_append, List.mem_append, not_or, not_or]
            exact ⟨⟨hfragment, by decide⟩, hfields⟩
        exact fun c hc => by simpa using fun h : c = '#' => hnot (h ▸ hc)
      rw [List.takeWhile_eq_self_iff.mpr hall, requestNonce_resetFields hnonce]
  unfold parseResetRequest
  rw [build_reset_url_eq p.getLast?_text htrim, splitOnce_append hquery, Option.bind_some, hread,
    routeOf_text p (head?_pathOf target)]

/-- The path part of a target becomes its route: it has no fragment, or what a later double dash
    leaves of it is the route all the same; where it has none, no later double dash cuts it. -/
def PathKept (kind : PrefixKind) (path : List Char) : Prop :=
  (kind.later path).elim ('#' ∉ path) (· = '/' :: path.takeWhile (· ≠ '#'))

/-- The query of a target leaves the reset flag and the nonce alone: it has no fragment, or it holds
    the two itself before the fragment. -/
def QueryKept (query nonce : List Char) : Prop :=
  '#' ∉ query ∨ requestNonce (query.takeWhile (· ≠ '#')) = some nonce

/-- **Reset links are recognised** for exactly these targets. -/
theorem parse_build_iff (p : UrlPrefix) {target nonce : List Char} (htrim : trim target = target)
    (hnonce : ∀ c ∈ nonce, (toDigit 16 c).isSome) :
    parseResetRequest (build_reset_url p.text target nonce) =
        some { target := routeOfTarget target, nonce := nonce } ↔
      PathKept p.kind (pathOf target) ∧ QueryKept (queryOf target) nonce := by
  have hpath : (p.kind.later (pathOf target)).getD ('/' :: pathOf target) = routeOfTarget target ↔
      PathKept p.kind (pathOf target) := by
    rw [routeOfTarget_eq]
    unfold PathKept
    cases p.kind.later (pathOf target) with
    | some route => exact Iff.rfl
    | none =>
      show '/' :: pathOf target = '/' :: (pathOf target).takeWhile (· ≠ '#') ↔ _
      rw [List.cons_inj_right, eq_comm, List.takeWhile_eq_self_iff]
      refine ⟨fun h hmem => ?_, fun h c hc => ?_⟩
      · have := h '#' hmem
        simp at this
      · simpa using fun hc' : c = '#' => h (hc' ▸ hc)
  have hquery : readQuery (queryOf target) nonce = some nonce ↔
      QueryKept (queryOf target) nonce := by
    unfold readQuery QueryKept
    split
    case isTrue hfragment => exact ⟨.inr, fun h => h.resolve_left fun hno => hno hfragment⟩
    case isFalse hfragment => exact iff_of_true rfl (.inl hfragment)
  rw [parse_build p htrim hnonce, Option.map_eq_some_iff, ← hpath, ← hquery]
  constructor
  · rintro ⟨read, hread, heq⟩
    obtain ⟨htarget, rfl⟩ := ResetRequest.mk.inj heq
    exact ⟨htarget, hread⟩
  · rintro ⟨htarget, hread⟩
    exact ⟨nonce, hread, by rw [htarget]⟩

/-- The prefix of an app with its own scheme. -/
def myapp : UrlPrefix where
  scheme := "myapp".toList
  kind := .appRoot
  scheme_chars := by decide
  host_chars := by decide
  scheme_app _ := by decide
  scheme_web _ h := by cases h

theorem parse_build_settings :
    parseResetRequest (build_reset_url myapp.text "/settings?tab=2".toList "9f".toList) =
      some { target := routeOfTarget "/settings?tab=2".toList, nonce := "9f".toList } :=
  (parse_build_iff myapp (by decide +kernel) (by decide +kernel)).mpr
    ⟨show '#' ∉ pathOf "/settings?tab=2".toList by decide +kernel, .inl (by decide +kernel)⟩

/-- The fragment of a target takes the reset flag with it. -/
theorem parse_build_fragment :
    parseResetRequest (build_reset_url myapp.text "/settings?tab=2#top".toList "9f".toList) ≠
      some { target := routeOfTarget "/settings?tab=2#top".toList, nonce := "9f".toList } := by
  decide +kernel

end Tapsmith.Reset.Link
