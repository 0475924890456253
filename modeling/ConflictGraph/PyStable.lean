import ConflictGraph.PyNumeral
import ConflictGraph.PyPathStable

/-!
# Identifiers that are normalised twice

A trace is normalised when it is written and again when it is read. What the normaliser returns
is fixed by it for addresses that are not loopback and for other logical resources, never for
processes and Redis keys, whose prefix is put on again, and for paths and loopback addresses
exactly if the input is `Stable`.
-/

namespace ConflictGraph.Py

open Str

/-- What the documentation of the interpreter and of its library says of it. -/
structure Interpreter.Documented (interpreter : Interpreter) : Prop where
  digits : interpreter.ReadsDigits
  /-- capital letters are no digits -/
  letters : ∀ c, 65 ≤ c → c ≤ 90 → interpreter.isDigit c = false
  /-- the digest is hexadecimal -/
  hexdigest : ∀ s, ∀ c ∈ interpreter.sha256 s, isAsciiDigit c = true ∨ (97 ≤ c ∧ c ≤ 102)
  /-- what is in lower case stays -/
  lower_lower : ∀ s, ∀ c ∈ interpreter.lower s, interpreter.lower [c] = [c]
  /-- ASCII is mapped character by character, and what follows has no part in it -/
  lower_append : ∀ s settled, (∀ c ∈ s, c < 128) → (∀ c ∈ settled, interpreter.lower [c] = [c]) →
    interpreter.lower (s ++ settled) =
      s.map (fun c => if 65 ≤ c ∧ c ≤ 90 then c + 32 else c) ++ settled
  /-- the compressed form of an address is one of its texts -/
  ipAddress_compressed : ∀ host address, interpreter.ipAddress host = some address →
    interpreter.ipAddress address.compressed = some address
  /-- it is in lower case but for the scope, which is that of the text -/
  compressed_lower : ∀ host address, interpreter.ipAddress host = some address →
    ∀ c ∈ address.compressed, c ∈ host ∨ interpreter.lower [c] = [c]
  /-- and starts with a digit or a colon -/
  compressed_head : ∀ host address, interpreter.ipAddress host = some address →
    ∃ c rest, address.compressed = c :: rest ∧ c ≠ 91

namespace NormalizationPolicy

/-! ## Paths -/

section Paths

variable (policy : NormalizationPolicy) (interpreter : Interpreter)

/-- The salted digest of a path. -/
def digest (value : Str) : Str := interpreter.sha256 (policy.hashSalt ++ 0 :: value)

/-- **The inputs whose path is normalised once and for all.** A hash is hashed again, so it
would have to be its own hash. Otherwise the path, with its containers renamed, must not end in
white space nor be excluded; and it must be outside of the repository before and after, or the
repository must be the very directory that `$REPO` is taken for. -/
def PathStable (raw : Str) (operation : Operation) : Prop :=
  let value := absolute (raw.strip.replaceChar 92 47)
  if policy.redactPaths then
    let digest := policy.digest interpreter (canonical interpreter (policy.relative value))
    let hashed := 47 :: (str "sha256:" ++ digest)
    policy.excludes hashed operation = false ∧
      policy.digest interpreter (policy.relative hashed) = digest
  else
    let renamed := canonical interpreter value
    renamed.endsInSpace = false ∧ policy.excludes renamed operation = false ∧
      if policy.inRepository value then policy.directory = some (str "/$REPO")
      else policy.inRepository renamed = false

variable {policy interpreter}

/-- The absolute path of a text is normal, and has no backslash unless the text has. -/
theorem exists_absolute {value : Str} (hback : 92 ∉ value) : ∃ root comps,
    IsNormal root comps ∧ absolute value = root ++ joinSlash comps ∧ ∀ comp ∈ comps, 92 ∉ comp := by
  have hstart : ∀ rooted : Str, rooted.head? = some 47 → 92 ∉ rooted → ∃ root comps,
      IsNormal root comps ∧ normpath rooted = root ++ joinSlash comps ∧
        ∀ comp ∈ comps, 92 ∉ comp := by
    intro rooted hhead hnone
    obtain ⟨comps, hnormal, hnormpath, hcomps, -⟩ := exists_normal hhead
    exact ⟨_, comps, hnormal, hnormpath, fun comp hcomp hmem =>
      hnone ((mem_splitOn rooted (hcomps comp hcomp)).2 92 hmem)⟩
  rw [absolute]
  split
  · rename_i hslash
    obtain ⟨rest, rfl⟩ := List.isPrefixOf_iff_prefix.mp hslash
    exact hstart _ rfl hback
  · refine hstart _ rfl fun hmem => ?_
    rcases List.mem_append.mp hmem with hmem | hmem
    · exact absurd hmem (by decide)
    · exact hback hmem

theorem not_mem_joinSlash {comps : List Str} {c : ℕ} (hc : c ≠ 47) (h : ∀ comp ∈ comps, c ∉ comp) :
    c ∉ joinSlash comps := fun hmem => by
  rcases mem_joinSlash hmem with heq | ⟨comp, hcomp, hmem⟩
  · exact hc heq
  · exact h comp hcomp hmem

theorem not_mem_renameSegment {part : Str} (h : 92 ∉ part) :
    92 ∉ renameSegment interpreter part := by
  rw [renameSegment]
  split
  · decide
  · exact h

/-- Renamed twice is renamed once. -/
theorem map_rename_rename (comps : List Str) :
    (comps.map (renameSegment interpreter)).map (renameSegment interpreter) =
      comps.map (renameSegment interpreter) := by
  rw [List.map_map]
  exact List.map_congr_left fun comp _ => renameSegment_renameSegment comp

/-- What follows the repository is made of components of the path. -/
theorem mem_of_mem_below {root directory rest : Str} {comps : List Str} (h : IsNormal root comps)
    (heq : root ++ joinSlash comps = directory ++ rest) (hrest : rest = [] ∨ rest.head? = some 47)
    {comp : Str} (hcomp : comp ∈ below rest) : comp ∈ comps := by
  obtain ⟨hmem, hkept⟩ := List.mem_filter.mp hcomp
  have hne : comp ≠ [] := (of_decide_eq_true hkept).1
  rcases rest with _ | ⟨c, rest⟩
  · exact absurd (List.mem_singleton.mp hmem) hne
  · obtain rfl : c = 47 := by
      rcases hrest with hnil | hhead
      · cases hnil
      · exact Option.some.inj hhead
    rw [List.splitOn_cons_eq_if_modifyHead, if_pos (beq_self_eq_true 47), List.mem_cons] at hmem
    have hall : comp ∈ (root ++ joinSlash comps).splitOn 47 := by
      rw [heq, List.splitOn_append_cons_self]
      exact List.mem_append_right _ (hmem.resolve_left hne)
    rw [splitOn_rooted h.root, List.mem_append] at hall
    have hjoined := hall.resolve_left fun hrep => hne (List.eq_of_mem_replicate hrep)
    rcases eq_or_ne comps [] with rfl | hcomps
    · exact absurd (List.mem_singleton.mp hjoined) hne
    · rwa [splitOn_joinSlash h.segments hcomps] at hjoined

/-- The path of a directory called `$REPO`, with its containers renamed. -/
theorem canonical_slash_repo {rest : Str} (hrest : rest = [] ∨ rest.head? = some 47) :
    canonical interpreter (str "/$REPO" ++ rest) =
      47 :: canonical interpreter (str "$REPO" ++ rest) := by
  have hhead : (str "$REPO" ++ rest).head? ≠ some 47 := by simp [str]
  have hparts : pathParts (str "/" ++ (str "$REPO" ++ rest)) =
      str "/" :: pathParts (str "$REPO" ++ rest) := by
    have hroot : rootOf (str "$REPO" ++ rest) = [] := by simp [rootOf, startsWith, str]
    rw [pathParts, rootOf_append (.inl rfl) hhead, splitOn_rooted (.inl rfl), pathParts, hroot]
    rfl
  change joinParts ((pathParts (str "/" ++ (str "$REPO" ++ rest))).map
    (renameSegment interpreter)) = _
  rw [hparts, canonical_repo hrest, pathParts_relative isSegment_repo hrest]
  rfl

/-- What `_path` returns, from the absolute path. -/
theorem path_eq_some {raw v : Str} {operation : Operation}
    (h : policy.path interpreter raw operation = .ok (some v)) :
    policy.redact interpreter (canonical interpreter
      (policy.relative (absolute (raw.strip.replaceChar 92 47)))) = .ok v := by
  rw [path] at h
  split at h
  · cases h
  · split at h
    · cases h
    · obtain ⟨v', hredact, hv'⟩ := eq_ok_of_map_eq_ok h
      rw [hredact, Option.some.inj hv']

/-- **A path that is not redacted, once more.** -/
theorem path_plain_again_iff {raw v : Str} {operation : Operation}
    (hredact : policy.redactPaths = false)
    (h : policy.path interpreter raw operation = .ok (some v)) :
    policy.path interpreter v operation = .ok (some v) ↔
      policy.PathStable interpreter raw operation := by
  have hv := path_of_space hredact h
  have hnone : 92 ∉ raw.strip.replaceChar 92 47 := not_mem_replaceChar (by decide)
  obtain ⟨root, comps, hnormal, habsolute, hback⟩ := exists_absolute hnone
  simp only [PathStable, hredact, if_neg Bool.false_ne_true]
  rw [habsolute] at hv ⊢
  cases hinside : policy.inRepository (root ++ joinSlash comps) with
  | false =>
    rw [relative_of_not_inRepository hinside, canonical_normal hnormal] at hv
    rw [canonical_normal hnormal, if_neg Bool.false_ne_true, hv]
    refine path_again_outside (isNormal_map_rename hnormal) (map_rename_rename comps) ?_ hredact
    refine fun hmem => (List.mem_append.mp hmem).elim (fun hroot => ?_) ?_
    · rcases hnormal.root with rfl | rfl <;> exact absurd hroot (by decide)
    · exact not_mem_joinSlash (by decide) (List.forall_mem_map.mpr fun comp hcomp =>
        not_mem_renameSegment (hback comp hcomp))
  | true =>
    obtain ⟨directory, rest, hdirectory, hvalue, hrest, hrelative⟩ := exists_relative hinside
    have hbelow : ∀ comp ∈ below rest, comp ∈ comps := fun comp hcomp =>
      mem_of_mem_below hnormal hvalue hrest hcomp
    rw [hrelative, canonical_repo hrest] at hv
    have hagain := @path_again_inside policy interpreter
      ((below rest).map (renameSegment interpreter)) (List.forall_mem_map.mpr fun comp hcomp =>
        isSegment_renameSegment (hnormal.segments comp (hbelow comp hcomp)))
      (map_rename_rename _)
      (not_mem_joinSlash (by decide) (List.forall_mem_cons.mpr ⟨by decide,
        List.forall_mem_map.mpr fun comp hcomp =>
          not_mem_renameSegment (hback comp (hbelow comp hcomp))⟩)) hredact operation
    rw [hv, hagain, if_pos rfl, ← canonical_repo hrest]
    have hrenamed : policy.directory = some (str "/$REPO") →
        canonical interpreter (root ++ joinSlash comps) =
          47 :: canonical interpreter (str "$REPO" ++ rest) := by
      intro hrepo
      rw [hdirectory] at hrepo
      rw [hvalue, Option.some.inj hrepo, canonical_slash_repo hrest]
    have hlast : endsInSpace (47 :: canonical interpreter (str "$REPO" ++ rest)) =
        (canonical interpreter (str "$REPO" ++ rest)).endsInSpace := by
      obtain ⟨tail, htail⟩ := List.head?_eq_some_iff.mp (head?_canonical_repo hrest)
      rw [htail]
      rfl
    refine ⟨?_, ?_⟩
    · rintro ⟨hspace, hexcluded, hrepo⟩
      rw [hrenamed hrepo, hlast]
      exact ⟨hspace, hexcluded, hrepo⟩
    · rintro ⟨hspace, hexcluded, hrepo⟩
      rw [hrenamed hrepo] at hspace hexcluded
      exact ⟨hlast.symm.trans hspace, hexcluded, hrepo⟩

/-! ### Hashes -/

/-- The characters of a hash with its prefix. -/
def isHashChar (c : ℕ) : Bool := isAsciiDigit c || (97 ≤ c && c ≤ 122) || c = 58

/-- A character of a hash is none that a path treats apart. -/
theorem plain_of_isHashChar {c : ℕ} (h : isHashChar c = true) :
    isSpace c = false ∧ c ≠ 92 ∧ c ≠ 47 ∧ c < 128 := by
  have hall : ∀ c < 128, isHashChar c = true → isSpace c = false ∧ c ≠ 92 ∧ c ≠ 47 := by
    decide +kernel
  have hlt : c < 128 := by
    simp only [isHashChar, isAsciiDigit, Bool.or_eq_true, Bool.and_eq_true, decide_eq_true_eq] at h
    omega
  obtain ⟨hspace, hback, hslash⟩ := hall c hlt h
  exact ⟨hspace, hback, hslash, hlt⟩

section Hash

variable {tail : Str} (hchars : ∀ c ∈ 115 :: tail, isHashChar c = true)
include hchars

theorem isSegment_hash : IsSegment (115 :: tail) :=
  ⟨List.cons_ne_nil _ _, fun h => absurd (List.cons.inj h).1 (by decide),
    fun h => absurd (List.cons.inj h).1 (by decide),
    fun hmem => (plain_of_isHashChar (hchars 47 hmem)).2.2.1 rfl⟩

/-- A hash is read as a file under the root. -/
theorem absolute_hash : absolute (115 :: tail) = 47 :: 115 :: tail := by
  have hnormal : IsNormal (str "/") [115 :: tail] :=
    ⟨.inl rfl, List.forall_mem_singleton.mpr (isSegment_hash hchars)⟩
  have hfixed := normpath_normal hnormal
  rw [joinSlash_singleton] at hfixed
  rw [absolute, if_neg (by exact Bool.false_ne_true)]
  exact hfixed

theorem strip_hash : replaceChar (strip (115 :: tail)) 92 47 = 115 :: tail := by
  have hlast : endsInSpace (115 :: tail) = false := by
    rw [endsInSpace, Option.any_eq_false]
    exact fun c hc => (plain_of_isHashChar (hchars c (List.mem_of_mem_getLast? hc))).1
  rw [strip_eq_self rfl hlast, replaceChar_eq_self]
  exact fun hmem => (plain_of_isHashChar (hchars 92 hmem)).2.1 rfl

theorem canonical_hash : canonical interpreter (47 :: 115 :: tail) = 47 :: 115 :: tail := by
  have hnormal : IsNormal (str "/") [115 :: tail] :=
    ⟨.inl rfl, List.forall_mem_singleton.mpr (isSegment_hash hchars)⟩
  have hname : renameSegment interpreter (115 :: tail) = 115 :: tail := rfl
  have hfixed := @canonical_normal interpreter _ _ hnormal
  rw [List.map_singleton, hname, joinSlash_singleton] at hfixed
  exact hfixed

/-- In the repository is a hash only if that is all of it. -/
theorem relative_hash : policy.relative (47 :: 115 :: tail) = 47 :: 115 :: tail ∨
    policy.relative (47 :: 115 :: tail) = str "$REPO" := by
  cases hinside : policy.inRepository (47 :: 115 :: tail) with
  | false => exact .inl (relative_of_not_inRepository hinside)
  | true =>
    obtain ⟨directory, rest, hdirectory, hvalue, hrest, hrelative⟩ := exists_relative hinside
    obtain ⟨first, others, rfl⟩ := List.exists_cons_of_ne_nil (directory_ne_nil hdirectory)
    have htail : 115 :: tail = others ++ rest := (List.cons.inj hvalue).2
    rcases hrest with rfl | hhead
    · exact .inr hrelative
    · have hmem : 47 ∈ 115 :: tail := by
        rw [htail]
        exact List.mem_append_right _ (List.mem_of_mem_head? hhead)
      exact absurd rfl (plain_of_isHashChar (hchars 47 hmem)).2.2.1

/-- What a hash is hashed to. -/
theorem redact_hash (hredact : policy.redactPaths = true) (hsalt : policy.hashSalt.encodable = true) :
    policy.redact interpreter (canonical interpreter (policy.relative (47 :: 115 :: tail))) =
      .ok (str "sha256:" ++ policy.digest interpreter (policy.relative (47 :: 115 :: tail))) := by
  have hascii : ∀ value : Str, (∀ c ∈ value, c < 128) →
      (policy.hashSalt ++ 0 :: value).encodable = true := by
    intro value hvalue
    have hrest : ∀ c ∈ 0 :: value, c < 128 := List.forall_mem_cons.mpr ⟨by decide, hvalue⟩
    rw [encodable, List.all_append, Bool.and_eq_true]
    refine ⟨hsalt, List.all_eq_true.mpr fun c hc => ?_⟩
    have hlt := hrest c hc
    rw [Bool.not_eq_true', Bool.and_eq_false_iff, decide_eq_false_iff_not]
    exact .inl (by omega)
  have hfixed : canonical interpreter (policy.relative (47 :: 115 :: tail)) =
      policy.relative (47 :: 115 :: tail) ∧
        ∀ c ∈ policy.relative (47 :: 115 :: tail), c < 128 := by
    rcases @relative_hash policy tail hchars with heq | heq <;> rw [heq]
    · exact ⟨canonical_hash hchars, List.forall_mem_cons.mpr ⟨by decide, fun c hc =>
        (plain_of_isHashChar (hchars c hc)).2.2.2⟩⟩
    · exact ⟨canonical_repo (.inl rfl), by decide⟩
  rw [hfixed.1, redact, if_pos hredact]
  simp only [if_pos (hascii _ hfixed.2)]
  rfl

end Hash

/-- `_path` on a hash. -/
theorem path_hash {hash : Str} (hstart : hash.head? = some 115)
    (hchars : ∀ c ∈ hash, isHashChar c = true) {operation : Operation}
    (hredact : policy.redactPaths = true) (hsalt : policy.hashSalt.encodable = true) :
    policy.path interpreter hash operation =
      if policy.excludes (47 :: hash) operation then .ok none
      else .ok (some (str "sha256:" ++ policy.digest interpreter (policy.relative (47 :: hash)))) := by
  obtain ⟨tail, rfl⟩ := List.head?_eq_some_iff.mp hstart
  have hne : ¬ (115 :: tail = [] ∨ 115 :: tail = str "(null)" ∨ 115 :: tail = str "<unknown>") := by
    rintro (heq | heq | heq)
    · cases heq
    · exact absurd (List.cons.inj heq).1 (by decide)
    · exact absurd (List.cons.inj heq).1 (by decide)
  rw [path]
  simp only [strip_hash hchars, if_neg hne, absolute_hash hchars, redact_hash hchars hredact hsalt]
  split <;> rfl

/-- The characters of a hexadecimal digest with the prefix of hashes. -/
theorem isHashChar_hash {digest : Str}
    (h : ∀ c ∈ digest, isAsciiDigit c = true ∨ (97 ≤ c ∧ c ≤ 102)) :
    ∀ c ∈ str "sha256:" ++ digest, isHashChar c = true := by
  refine List.forall_mem_append.mpr ⟨by decide, fun c hc => ?_⟩
  rw [isHashChar]
  rcases h c hc with hdigit | ⟨hlow, hhigh⟩
  · rw [hdigit]
    rfl
  · have hletter : (decide (97 ≤ c) && decide (c ≤ 122)) = true := by
      rw [Bool.and_eq_true, decide_eq_true_eq, decide_eq_true_eq]
      omega
    rw [hletter, Bool.or_true]
    rfl

/-- **A path that is redacted, once more**: its hash is the same only if it is its own hash. -/
theorem path_redacted_again_iff (hdocumented : interpreter.Documented) {raw v : Str}
    {operation : Operation} (hredact : policy.redactPaths = true)
    (h : policy.path interpreter raw operation = .ok (some v)) :
    policy.path interpreter v operation = .ok (some v) ↔
      policy.PathStable interpreter raw operation := by
  have hv := path_eq_some h
  simp only [PathStable, hredact, if_true]
  generalize canonical interpreter
    (policy.relative (absolute (raw.strip.replaceChar 92 47))) = value at hv ⊢
  simp only [redact, hredact, if_true] at hv
  split at hv
  · rename_i hencodable
    have hsalt : policy.hashSalt.encodable = true := by
      rw [encodable, List.all_append, Bool.and_eq_true] at hencodable
      exact hencodable.1
    have hhash : str "sha256:" ++ policy.digest interpreter value = v := Except.ok.inj hv
    have hchars := isHashChar_hash (hdocumented.hexdigest (policy.hashSalt ++ 0 :: value))
    have hstart : v.head? = some 115 := by
      rw [← hhash]
      rfl
    rw [← digest, hhash] at hchars
    rw [hhash, path_hash hstart hchars hredact hsalt]
    cases policy.excludes (47 :: v) operation with
    | true => exact iff_of_false (by simp) (by simp)
    | false =>
      rw [if_neg Bool.false_ne_true, and_iff_right rfl, Except.ok.injEq, Option.some.injEq]
      nth_rewrite 2 [← hhash]
      rw [List.append_cancel_left_eq]
  · cases hv

/-- **A path, once more.** -/
theorem path_again_iff (hdocumented : interpreter.Documented) {raw v : Str}
    {operation : Operation} (h : policy.path interpreter raw operation = .ok (some v)) :
    policy.path interpreter v operation = .ok (some v) ↔
      policy.PathStable interpreter raw operation := by
  cases hredact : policy.redactPaths with
  | false => exact path_plain_again_iff hredact h
  | true => exact path_redacted_again_iff hdocumented hredact h

end Paths

/-! ## Endpoints -/

section Endpoints

/-- The host and the port of an endpoint, if it has both. -/
def hostPort (value : Str) : Option (Str × Str) :=
  if value.head? = some 91 then
    if 93 ∈ value then
      some (value.tail.takeWhile (· ≠ 93), (value.dropWhile (· ≠ 93)).tail.dropWhile (· = 58))
    else none
  else value.rpartition 58

/-- The address and the port that `_endpoint` reads. -/
def addressOf (interpreter : Interpreter) (raw : Str) (protocol : String) :
    Option (IPAddress × ℕ) := do
  let value : Str := interpreter.lower raw.strip
  let (host, port) ← hostPort ((value.dropPrefix? (str protocol ++ [58])).getD value)
  let parsedPort ← intOf interpreter port
  if parsedPort < 0 ∨ 65535 < parsedPort then none
  else
    let address ← interpreter.ipAddress (if host = [] then str "0.0.0.0" else host)
    some (address, parsedPort.toNat)

/-- The text of an endpoint. -/
def endpointText (upper : String) (host : Str) (port : ℕ) : Str :=
  str upper ++ 58 :: (host ++ 58 :: Str.ofNat port)

/-- The name of a protocol, and its capital letters. -/
def IsProtocol (protocol upper : String) : Prop :=
  (protocol = "tcp" ∧ upper = "TCP") ∨ (protocol = "udp" ∧ upper = "UDP")

variable (policy : NormalizationPolicy) (interpreter : Interpreter)

/-- The host that `_endpoint` writes for an address. -/
def hostText (address : IPAddress) : Str :=
  if address.isLoopback then policy.loopbackAlias else address.compressed

/-- **The endpoints that are normalised once and for all**: those that are not loopback; and the
others if their alias is read as a loopback address again, or as the very address that it is the
text of, at the same port. -/
def EndpointStable (raw : Str) (protocol upper : String) : Prop :=
  ∀ address port, addressOf interpreter raw protocol = some (address, port) →
    address.isLoopback = true → ∃ again,
      addressOf interpreter (endpointText upper policy.loopbackAlias port) protocol =
        some (again, port) ∧ (again.isLoopback = true ∨ again.compressed = policy.loopbackAlias)

variable {policy interpreter} {protocol upper : String}

/-- What is done with the host and the port. -/
theorem endpoint_hostPort_eq (host port : Str) :
    ((intOf interpreter port).bind fun parsedPort =>
      if parsedPort < 0 ∨ 65535 < parsedPort then none
      else (interpreter.ipAddress (if host = [] then str "0.0.0.0" else host)).bind fun address =>
        some (str upper ++ [58] ++ policy.hostText address ++ [58] ++
          Str.ofNat parsedPort.toNat)) =
      ((intOf interpreter port).bind fun parsedPort =>
        if parsedPort < 0 ∨ 65535 < parsedPort then none
        else (interpreter.ipAddress (if host = [] then str "0.0.0.0" else host)).bind fun address =>
          some (address, parsedPort.toNat)).map fun found =>
        endpointText upper (policy.hostText found.1) found.2 := by
  rw [Option.map_bind]
  refine Option.bind_congr fun parsedPort _ => ?_
  rw [Function.comp]
  split
  · rfl
  · rw [Option.map_bind]
    refine Option.bind_congr fun address _ => ?_
    simp only [Function.comp, Option.map_some, endpointText, List.append_assoc,
      List.cons_append, List.nil_append]

/-- An endpoint is written from its address. -/
theorem endpoint_eq (raw : Str) : policy.endpoint interpreter raw protocol upper =
    (addressOf interpreter raw protocol).map fun found =>
      endpointText upper (policy.hostText found.1) found.2 := by
  simp only [endpoint, addressOf, hostPort, Option.bind_eq_bind]
  generalize (List.dropPrefix? (interpreter.lower raw.strip) (str protocol ++ [58])).getD
    (interpreter.lower raw.strip) = value
  by_cases hbracket : value.head? = some 91
  · by_cases hclose : 93 ∈ value
    · simp only [if_pos hbracket, if_pos hclose]
      exact endpoint_hostPort_eq _ _
    · simp only [if_pos hbracket, if_neg hclose]
      rfl
  · simp only [if_neg hbracket]
    rw [Option.map_bind]
    exact Option.bind_congr fun found _ => endpoint_hostPort_eq found.1 found.2

/-- A text is parted at its last separator. -/
theorem rpartition_append {s t : Str} {sep : ℕ} (h : sep ∉ t) :
    (s ++ sep :: t).rpartition sep = some (s, t) := by
  have hall : ∀ c ∈ t.reverse, decide (c ≠ sep) = true := by
    intro c hc
    rw [List.mem_reverse] at hc
    exact decide_eq_true fun heq => h (heq ▸ hc)
  have hreverse : (s ++ sep :: t).reverse = t.reverse ++ sep :: s.reverse := by simp
  rw [rpartition, if_pos (List.mem_append_right _ List.mem_cons_self), hreverse,
    List.dropWhile_append_of_pos hall, List.takeWhile_append_of_pos hall]
  simp

/-- An endpoint has one text. -/
theorem endpointText_inj {host host' : Str} {port port' : ℕ} :
    endpointText upper host port = endpointText upper host' port' ↔ host = host' ∧ port = port' := by
  refine ⟨fun h => ?_, fun ⟨hhost, hport⟩ => by rw [hhost, hport]⟩
  have hsame := (List.cons.inj (List.append_cancel_left h)).2
  have hparts := @rpartition_append host (Str.ofNat port) 58 (not_mem_ofNat rfl)
  rw [hsame, rpartition_append (not_mem_ofNat rfl)] at hparts
  obtain ⟨hhost, hport⟩ := Prod.mk.inj (Option.some.inj hparts)
  refine ⟨hhost.symm, ?_⟩
  have hvalue := congrArg decimalOf hport
  rw [decimalOf_ofNat, decimalOf_ofNat] at hvalue
  exact hvalue.symm

theorem mem_of_hostPort {value host port : Str} (h : hostPort value = some (host, port)) :
    ∀ c ∈ host, c ∈ value := by
  intro c hc
  rw [hostPort] at h
  split at h
  · split at h
    · obtain ⟨rfl, -⟩ := Prod.mk.inj (Option.some.inj h)
      exact List.mem_of_mem_tail (List.takeWhile_subset _ hc)
    · cases h
  · rw [rpartition] at h
    split at h
    · obtain ⟨rfl, -⟩ := Prod.mk.inj (Option.some.inj h)
      rw [List.mem_reverse] at hc
      exact List.mem_reverse.mp (List.dropWhile_subset _ (List.mem_of_mem_tail hc))
    · cases h

theorem endsInSpace_append {s t : Str} (h : t ≠ []) :
    endsInSpace (s ++ t) = endsInSpace t := by
  rw [endsInSpace, endsInSpace, List.getLast?_append_of_ne_nil _ h]

theorem endsInSpace_ofNat (n : ℕ) : endsInSpace (Str.ofNat n) = false := by
  rw [endsInSpace, Option.any_eq_false]
  intro c hc
  have hdigit := isAsciiDigit_of_mem_ofNat (List.mem_of_mem_getLast? hc)
  rw [isAsciiDigit, Bool.and_eq_true, decide_eq_true_eq, decide_eq_true_eq] at hdigit
  have hnone : ∀ d < 10, isSpace (48 + d) = false := by decide
  obtain ⟨d, rfl⟩ := Nat.exists_eq_add_of_le hdigit.1
  exact hnone d (by omega)

/-- The text of an endpoint has no white space at its ends. -/
theorem strip_endpointText (hprotocol : IsProtocol protocol upper) (host : Str) (port : ℕ) :
    (endpointText upper host port).strip = endpointText upper host port := by
  refine strip_eq_self ?_ ?_
  · rcases hprotocol with ⟨-, rfl⟩ | ⟨-, rfl⟩ <;> rfl
  · rw [endpointText, endsInSpace_append (List.cons_ne_nil _ _), ← List.singleton_append,
      endsInSpace_append (List.append_ne_nil_of_right_ne_nil _ (List.cons_ne_nil _ _)),
      endsInSpace_append (List.cons_ne_nil _ _), ← List.singleton_append,
      endsInSpace_append (ofNat_ne_nil port), endsInSpace_ofNat]

section Documented

variable (hdocumented : interpreter.Documented)
include hdocumented

/-- Other than capital letters, ASCII is in lower case. -/
theorem lower_ascii {c : ℕ} (hascii : c < 128) (hcapital : ¬ (65 ≤ c ∧ c ≤ 90)) :
    interpreter.lower [c] = [c] := by
  have h := hdocumented.lower_append [c] [] (List.forall_mem_singleton.mpr hascii)
    fun d hd => absurd hd List.not_mem_nil
  rwa [List.append_nil, List.append_nil, List.map_singleton, if_neg hcapital] at h

/-- The text that an address is read from is in lower case. -/
theorem exists_host {raw : Str} {address : IPAddress} {port : ℕ}
    (h : addressOf interpreter raw protocol = some (address, port)) :
    port ≤ 65535 ∧ ∃ host, interpreter.ipAddress host = some address ∧
      ∀ c ∈ host, interpreter.lower [c] = [c] := by
  simp only [addressOf, Option.bind_eq_bind] at h
  obtain ⟨⟨host, digits⟩, hparts, h⟩ := Option.bind_eq_some_iff.mp h
  obtain ⟨parsedPort, -, h⟩ := Option.bind_eq_some_iff.mp h
  split at h
  · cases h
  · rename_i hrange
    obtain ⟨address', haddress, h⟩ := Option.bind_eq_some_iff.mp h
    obtain ⟨rfl, rfl⟩ := Prod.mk.inj (Option.some.inj h)
    refine ⟨by omega, _, haddress, ?_⟩
    split
    · have hall : ∀ c ∈ str "0.0.0.0", c < 128 ∧ ¬ (65 ≤ c ∧ c ≤ 90) := by decide
      exact fun c hc => lower_ascii hdocumented (hall c hc).1 (hall c hc).2
    · intro c hc
      refine hdocumented.lower_lower raw.strip c ?_
      have hmem := mem_of_hostPort hparts c hc
      rcases hdrop : List.dropPrefix? (interpreter.lower raw.strip) (str protocol ++ [58]) with
        _ | rest
      · rwa [hdrop] at hmem
      · obtain ⟨front, heq, -⟩ := List.dropPrefix?_eq_some_iff.mp hdrop
        rw [hdrop] at hmem
        exact heq ▸ List.mem_append_right front hmem

/-- **The text of an endpoint is read as its address and its port.** -/
theorem addressOf_endpointText (hprotocol : IsProtocol protocol upper) {host : Str}
    {address : IPAddress} {port : ℕ} (hhost : ∀ c ∈ host, interpreter.lower [c] = [c])
    (hstart : ∃ c rest, host = c :: rest ∧ c ≠ 91)
    (haddress : interpreter.ipAddress host = some address) (hport : port ≤ 65535) :
    addressOf interpreter (endpointText upper host port) protocol = some (address, port) := by
  have hlower : interpreter.lower (endpointText upper host port) =
      str protocol ++ [58] ++ (host ++ 58 :: Str.ofNat port) := by
    have hascii : ∀ c ∈ str upper ++ [58], c < 128 := by
      rcases hprotocol with ⟨-, rfl⟩ | ⟨-, rfl⟩ <;> decide
    have hsettled : ∀ c ∈ host ++ 58 :: Str.ofNat port, interpreter.lower [c] = [c] := by
      refine List.forall_mem_append.mpr ⟨hhost, List.forall_mem_cons.mpr
        ⟨lower_ascii hdocumented (by decide) (by decide), fun c hc => ?_⟩⟩
      have hdigit := isAsciiDigit_of_mem_ofNat hc
      rw [isAsciiDigit, Bool.and_eq_true, decide_eq_true_eq, decide_eq_true_eq] at hdigit
      exact lower_ascii hdocumented (by omega) (by omega)
    have happend := hdocumented.lower_append _ _ hascii hsettled
    rw [List.append_assoc] at happend
    rw [endpointText, ← List.singleton_append (x := 58) (l := host ++ 58 :: Str.ofNat port), happend]
    rcases hprotocol with ⟨rfl, rfl⟩ | ⟨rfl, rfl⟩ <;> rfl
  have hdrop : List.dropPrefix? (str protocol ++ [58] ++ (host ++ 58 :: Str.ofNat port))
      (str protocol ++ [58]) = some (host ++ 58 :: Str.ofNat port) :=
    List.dropPrefix?_eq_some_iff.mpr ⟨_, rfl, beq_self_eq_true _⟩
  obtain ⟨c, rest, rfl, hc⟩ := hstart
  have hparts : hostPort (c :: rest ++ 58 :: Str.ofNat port) = some (c :: rest, Str.ofNat port) := by
    have hhead : ¬ (c :: rest ++ 58 :: Str.ofNat port).head? = some 91 := fun h =>
      hc (Option.some.inj h)
    rw [hostPort, if_neg hhead, rpartition_append (not_mem_ofNat rfl)]
  have hnumber := intOf_ofNat hdocumented.digits (n := port)
    (Nat.lt_of_lt_of_le (Nat.lt_of_le_of_lt hport (by decide : 65535 < 10 ^ 5))
      (Nat.pow_le_pow_right (by decide) (by decide)))
  have hrange : ¬ ((port : ℤ) < 0 ∨ 65535 < (port : ℤ)) := by omega
  rw [addressOf, strip_endpointText hprotocol, hlower]
  simp only [hdrop, Option.getD_some, hparts, Option.bind_eq_bind, Option.bind_some, hnumber,
    if_neg hrange, if_neg (List.cons_ne_nil c rest), haddress, Int.toNat_natCast]

/-- **An endpoint, once more.** -/
theorem endpoint_again_iff (hprotocol : IsProtocol protocol upper) {raw v : Str}
    (h : policy.endpoint interpreter raw protocol upper = some v) :
    policy.endpoint interpreter v protocol upper = some v ↔
      policy.EndpointStable interpreter raw protocol upper := by
  rw [endpoint_eq] at h
  obtain ⟨⟨address, port⟩, hread, rfl⟩ := Option.map_eq_some_iff.mp h
  have hstable : policy.EndpointStable interpreter raw protocol upper ↔
      (address.isLoopback = true → ∃ again,
        addressOf interpreter (endpointText upper policy.loopbackAlias port) protocol =
          some (again, port) ∧
        (again.isLoopback = true ∨ again.compressed = policy.loopbackAlias)) := by
    refine ⟨fun hall => hall address port hread, fun hone address' port' hread' => ?_⟩
    obtain ⟨rfl, rfl⟩ := Prod.mk.inj (Option.some.inj (hread.symm.trans hread'))
    exact hone
  rw [endpoint_eq, hstable]
  cases hloopback : address.isLoopback with
  | false =>
    obtain ⟨hport, host, hhost, hlower⟩ := exists_host hdocumented hread
    have hcompressed : ∀ c ∈ address.compressed, interpreter.lower [c] = [c] := fun c hc =>
      (hdocumented.compressed_lower host address hhost c hc).elim (hlower c) id
    have hagain := addressOf_endpointText hdocumented hprotocol hcompressed
      (hdocumented.compressed_head host address hhost)
      (hdocumented.ipAddress_compressed host address hhost) hport
    have htext : policy.hostText address = address.compressed := by
      rw [hostText, hloopback]
      rfl
    rw [htext, hagain, Option.map_some, htext]
    exact iff_of_true rfl fun hfalse => Bool.noConfusion hfalse
  | true =>
    have htext : policy.hostText address = policy.loopbackAlias := by
      rw [hostText, hloopback]
      rfl
    rw [htext, Option.map_eq_some_iff, forall_prop_of_true rfl, Prod.exists]
    refine exists_congr fun again => ⟨?_, ?_⟩
    · rintro ⟨port', hread', heq⟩
      obtain ⟨hhost, rfl⟩ := endpointText_inj.mp heq
      refine ⟨hread', ?_⟩
      rw [hostText] at hhost
      split at hhost
      · rename_i hagain
        exact .inl hagain
      · exact .inr hhost
    · rintro ⟨hread', hhost⟩
      refine ⟨port, hread', endpointText_inj.mpr ⟨?_, rfl⟩⟩
      rw [hostText]
      split
      · rfl
      · rename_i hagain
        exact hhost.resolve_left hagain

end Documented

end Endpoints

/-! ## Keys and programs -/

/-- What `_redis` returns, with a key that does not end in white space. -/
theorem exists_key {interpreter : Interpreter} {raw v : Str} (h : redis interpreter raw = some v) :
    ∃ db key, v = str "REDIS:" ++ (db ++ 58 :: key) ∧ key ≠ [] ∧ endsInSpace key = false := by
  have hlast := endsInSpace_strip raw
  have hkey : ∀ db key : Str, (if key = [] then none else
      some (str "REDIS:" ++ db ++ [58] ++ key)) = some v → endsInSpace key = false →
      ∃ db key, v = str "REDIS:" ++ (db ++ 58 :: key) ∧ key ≠ [] ∧ endsInSpace key = false := by
    intro db key h hspace
    split at h
    · cases h
    · rename_i hne
      exact ⟨db, key, by rw [← Option.some.inj h]; simp, hne, hspace⟩
  simp only [redis] at h
  split at h
  · refine hkey _ _ h ?_
    -- the key is the end of the text
    obtain ⟨front, hfront⟩ := (List.tail_suffix (raw.strip.dropWhile (· ≠ 58))).trans
      (List.dropWhile_suffix (· ≠ 58))
    rcases eq_or_ne (raw.strip.dropWhile (· ≠ 58)).tail [] with hnil | hne
    · rw [hnil]
      rfl
    · rwa [← hfront, endsInSpace_append hne] at hlast
  · exact hkey _ _ h hlast

/-- **A Redis key is never the same again**: `REDIS` is no database, so it is part of the key. -/
theorem redis_again {interpreter : Interpreter} (hdocumented : interpreter.Documented)
    {raw v : Str} (h : redis interpreter raw = some v) :
    redis interpreter v = some (str "REDIS:0:" ++ v) := by
  obtain ⟨db, key, rfl, hne, hlast⟩ := exists_key h
  have hstrip : (str "REDIS:" ++ (db ++ 58 :: key)).strip = str "REDIS:" ++ (db ++ 58 :: key) := by
    refine strip_eq_self rfl ?_
    rw [endsInSpace_append (List.append_ne_nil_of_right_ne_nil _ (List.cons_ne_nil _ _)),
      endsInSpace_append (List.cons_ne_nil _ _), ← List.singleton_append, endsInSpace_append hne,
      hlast]
  have hdb : ¬ (58 ∈ str "REDIS:" ++ (db ++ 58 :: key) ∧
      (str "REDIS:" ++ (db ++ 58 :: key)).takeWhile (· ≠ 58) ≠ [] ∧
      ((str "REDIS:" ++ (db ++ 58 :: key)).takeWhile (· ≠ 58)).all interpreter.isDigit = true) := by
    rintro ⟨-, -, hall⟩
    have hfirst : (str "REDIS:" ++ (db ++ 58 :: key)).takeWhile (· ≠ 58) = str "REDIS" := rfl
    rw [hfirst, str, List.all_eq_true] at hall
    have hletter := hall 82 (by decide)
    rw [hdocumented.letters 82 (by decide) (by decide)] at hletter
    cases hletter
  have hkey : str "REDIS:" ++ (db ++ 58 :: key) ≠ [] := List.cons_ne_nil _ _
  simp only [redis, hstrip, if_neg hdb, if_neg hkey]
  rfl

/-- The words of a text are made of its characters, less white space. -/
theorem mem_splitWords {s : Str} : ∀ {word w : Str}, w ∈ splitWords word s →
    ∀ c ∈ w, c ∈ word ∨ (c ∈ s ∧ isSpace c = false) := by
  induction s with
  | nil =>
    intro word w hw c hc
    rw [splitWords] at hw
    split at hw
    · cases hw
    · obtain rfl := List.mem_singleton.mp hw
      exact .inl (List.mem_reverse.mp hc)
  | cons d rest ih =>
    intro word w hw c hc
    rw [splitWords] at hw
    split at hw
    · have hrest : w ∈ splitWords [] rest → c ∈ word ∨ (c ∈ d :: rest ∧ isSpace c = false) := by
        intro hmem
        rcases ih hmem c hc with hnil | ⟨hmem, hspace⟩
        · cases hnil
        · exact .inr ⟨List.mem_cons_of_mem d hmem, hspace⟩
      split at hw
      · exact hrest hw
      · rcases List.mem_cons.mp hw with rfl | hw
        · exact .inl (List.mem_reverse.mp hc)
        · exact hrest hw
    · rename_i hspace
      rcases ih hw c hc with hword | ⟨hmem, hc'⟩
      · rcases List.mem_cons.mp hword with rfl | hword
        · exact .inr ⟨List.mem_cons_self, Bool.eq_false_of_not_eq_true hspace⟩
        · exact .inl hword
      · exact .inr ⟨List.mem_cons_of_mem d hmem, hc'⟩

/-- A text without white space is one word. -/
theorem splitWords_eq_singleton {s : Str} (h : ∀ c ∈ s, isSpace c = false) :
    ∀ {word : Str}, word.reverse ++ s ≠ [] → splitWords word s = [word.reverse ++ s] := by
  induction s with
  | nil =>
    intro word hne
    rw [List.append_nil] at hne ⊢
    rw [splitWords, if_neg fun hnil => hne (by rw [hnil]; rfl)]
  | cons c rest ih =>
    intro word hne
    rw [List.forall_mem_cons] at h
    have hrest := @ih h.2 (c :: word) (by simp)
    rw [splitWords, if_neg (by rw [h.1]; exact Bool.false_ne_true), hrest]
    simp

/-- The name of a program has neither white space, nor a NUL, nor a slash. -/
theorem exists_executable {raw v : Str} (h : process raw = .ok (some v)) : ∃ executable,
    v = str "EXEC:" ++ executable ∧ ∀ c ∈ executable, isSpace c = false ∧ c ≠ 0 ∧ c ≠ 47 := by
  simp only [process] at h
  split at h
  · cases h
  · split at h
    · cases h
    · rename_i word hword
      split at h
      · cases h
      · refine ⟨basename word, (Option.some.inj (Except.ok.inj h)).symm, fun c hc => ?_⟩
        have hslash := List.mem_takeWhile_imp (List.mem_reverse.mp hc)
        have hmem : c ∈ word := List.mem_reverse.mp
          (List.takeWhile_subset _ (List.mem_reverse.mp hc))
        rcases mem_splitWords (List.mem_of_mem_head? hword) c hmem with hnil | ⟨hmem, hspace⟩
        · cases hnil
        · have hnul := List.mem_takeWhile_imp hmem
          exact ⟨hspace, of_decide_eq_true hnul, of_decide_eq_true hslash⟩

/-- **A program is never the same again**: its prefix is put on once more. -/
theorem process_again {raw v : Str} (h : process raw = .ok (some v)) :
    process v = .ok (some (str "EXEC:" ++ v)) := by
  obtain ⟨executable, rfl, hchars⟩ := exists_executable h
  have hall : ∀ c ∈ str "EXEC:" ++ executable, isSpace c = false ∧ c ≠ 0 ∧ c ≠ 47 :=
    List.forall_mem_append.mpr ⟨by decide, hchars⟩
  generalize hv : str "EXEC:" ++ executable = v at hall ⊢
  have hne : v ≠ [] := hv ▸ List.cons_ne_nil _ _
  have hlast : endsInSpace v = false := by
    rw [endsInSpace, Option.any_eq_false]
    exact fun c hc => (hall c (List.mem_of_mem_getLast? hc)).1
  have hstrip : v.strip = v := strip_eq_self (by rw [← hv]; rfl) hlast
  have hnul : v.takeWhile (· ≠ 0) = v :=
    List.takeWhile_eq_self_iff.mpr fun c hc => decide_eq_true (hall c hc).2.1
  have hwords : words v = [v] :=
    @splitWords_eq_singleton v (fun c hc => (hall c hc).1) [] hne
  have hbase : basename v = v := by
    rw [basename, List.takeWhile_eq_self_iff.mpr, List.reverse_reverse]
    exact fun c hc => decide_eq_true (hall c (List.mem_reverse.mp hc)).2.2
  simp only [process, hstrip, if_neg hne, hnul, hwords, List.head?_cons, hbase]

/-! ## Every kind -/

section Kinds

variable (policy : NormalizationPolicy) (interpreter : Interpreter)

/-- **The identifiers that are normalised once and for all.** -/
def Stable (kind : ResourceType) (raw : Str) (operation : Operation) : Prop :=
  match kind with
  | .file | .directory | .fileLock | .unixSocket | .databaseResource =>
    policy.PathStable interpreter raw operation
  | .tcpEndpoint => policy.EndpointStable interpreter raw "tcp" "TCP"
  | .udpEndpoint => policy.EndpointStable interpreter raw "udp" "UDP"
  -- the prefix is put on again
  | .redisKey => False
  | .process => False
  | .otherLogicalResource => True

variable {policy interpreter}

theorem append_ne_self {s t : Str} (h : s ≠ []) : s ++ t ≠ t := fun heq =>
  h (List.append_left_eq_self.mp heq)

/-- **An identifier, once more.** -/
theorem normalizeIdentifier_again_iff (hdocumented : interpreter.Documented) {kind : ResourceType}
    {raw v : Str} {operation : Operation}
    (h : policy.normalizeIdentifier interpreter kind raw operation = .ok (some v)) :
    policy.normalizeIdentifier interpreter kind v operation = .ok (some v) ↔
      policy.Stable interpreter kind raw operation := by
  cases kind with
  | file => exact path_again_iff hdocumented h
  | directory => exact path_again_iff hdocumented h
  | fileLock => exact path_again_iff hdocumented h
  | unixSocket => exact path_again_iff hdocumented h
  | databaseResource => exact path_again_iff hdocumented h
  | tcpEndpoint =>
    exact Iff.trans ⟨Except.ok.inj, congrArg _⟩
      (endpoint_again_iff hdocumented (.inl ⟨rfl, rfl⟩) (Except.ok.inj h))
  | udpEndpoint =>
    exact Iff.trans ⟨Except.ok.inj, congrArg _⟩
      (endpoint_again_iff hdocumented (.inr ⟨rfl, rfl⟩) (Except.ok.inj h))
  | redisKey =>
    refine iff_of_false (fun hagain => ?_) id
    have hprefixed := redis_again hdocumented (Except.ok.inj h)
    rw [Except.ok.inj hagain] at hprefixed
    exact append_ne_self (List.cons_ne_nil _ _) (Option.some.inj hprefixed).symm
  | process =>
    refine iff_of_false (fun hagain => ?_) id
    have hprefixed := process_again h
    have hsame : process v = .ok (some v) := hagain
    rw [hsame] at hprefixed
    exact append_ne_self (List.cons_ne_nil _ _) (Option.some.inj (Except.ok.inj hprefixed)).symm
  | otherLogicalResource =>
    refine iff_of_true ?_ trivial
    simp only [normalizeIdentifier] at h ⊢
    split at h
    · cases h
    · rename_i hne
      obtain rfl := Option.some.inj (Except.ok.inj h)
      rw [strip_strip, if_neg hne]

end Kinds

end NormalizationPolicy

end ConflictGraph.Py
