import ConflictGraph.RustAddress
import ConflictGraph.Utf8Text

/-!
# Endpoints

A socket address denotes an IP address and a port, or the name of a Unix socket. A name that begins
with a NUL is abstract, and all its bytes count; of another name what is before the first NUL.
`socket_identifier` keeps addresses, ports and the names of files apart. Of a name it takes what is
before the first NUL, which of an abstract name is nothing, so all of those have one identifier
(`distinguished_iff`).
-/

namespace ConflictGraph.Rust

/-! ## Socket addresses -/

/-- What a socket address denotes. -/
inductive Endpoint : Type where
  | inet (octets : List UInt8) (port : ℕ)
  | inet6 (octets : List UInt8) (port : ℕ)
  | unix (name : List UInt8)
  deriving DecidableEq

/-- The name in a `sun_path` of which as many bytes count as there are. -/
def unixName (path : List UInt8) : List UInt8 :=
  if path.head? = some 0 then path else path.takeWhile (· ≠ 0)

/-- The endpoint that a socket address denotes, if it is of a known family and complete. -/
def endpointOf (bytes : List UInt8) : Option Endpoint :=
  if bytes.length < 2 then none
  else if familyOf bytes = afInet then
    if bytes.length < 8 then none
    else some (.inet [bytes.getD 4 0, bytes.getD 5 0, bytes.getD 6 0, bytes.getD 7 0] (portOf bytes))
  else if familyOf bytes = afInet6 then
    if bytes.length < 24 then none else some (.inet6 ((bytes.drop 8).take 16) (portOf bytes))
  else if familyOf bytes = afUnix then some (.unix (unixName (bytes.drop 2)))
  else none

/-- The name of a Unix socket is UTF-8. -/
def NamedInUtf8 (bytes : List UInt8) : Prop :=
  ∀ name, endpointOf bytes = some (.unix name) → Utf8.IsText name

/-- A Unix socket has an abstract name or none. -/
def Hidden (bytes : List UInt8) : Prop :=
  ∃ name, endpointOf bytes = some (.unix name) ∧ (name = [] ∨ name.head? = some 0)

/-- If two addresses have one identifier, they denote one endpoint. -/
def Distinguished (bytes bytes' : List UInt8) : Prop :=
  ∀ identifier, socketIdentifier bytes = .ok identifier →
    socketIdentifier bytes' = .ok identifier → endpointOf bytes = endpointOf bytes'

/-! ## Identifiers -/

/-- The identifier of an endpoint. -/
inductive Identifies : Endpoint → List Char → Prop where
  | inet (a b c d : UInt8) (port : ℕ) : Identifies (.inet [a, b, c, d] port)
      ("TCP:".toList ++ ((ipv4Text a b c d).toList ++ ':' :: Nat.toDigits 10 port))
  | inet6 (octets : List UInt8) (h : octets.length = 16) (port : ℕ) : Identifies (.inet6 octets port)
      ("TCP:".toList ++ '[' :: ((ipv6Text octets).toList ++ ']' :: ':' :: Nat.toDigits 10 port))
  | unix (path : List UInt8) : Identifies (.unix (unixName path))
      ("UNIX:".toList ++ (Utf8.lossy (path.takeWhile (· ≠ 0))).toList)

/-- **What `socket_identifier` returns** is the identifier of the endpoint. -/
theorem identifies_of_socketIdentifier {bytes : List UInt8} {identifier : String}
    (h : socketIdentifier bytes = .ok identifier) :
    ∃ endpoint, endpointOf bytes = some endpoint ∧ Identifies endpoint identifier.toList := by
  rw [socketIdentifier] at h
  rw [endpointOf]
  split_ifs at h ⊢ with hshort hinet hinet8 hinet6 hinet24 hunix
  · obtain rfl := Except.ok.inj h
    refine ⟨_, rfl, ?_⟩
    convert Identifies.inet _ _ _ _ _ using 1
    simp
  · obtain rfl := Except.ok.inj h
    have hoctets : ((bytes.drop 8).take 16).length = 16 := by
      rw [List.length_take, List.length_drop]
      omega
    refine ⟨_, rfl, ?_⟩
    convert Identifies.inet6 _ hoctets _ using 1
    simp
  · obtain rfl := Except.ok.inj h
    refine ⟨_, rfl, ?_⟩
    convert Identifies.unix _ using 1
    rw [String.toList_append]

/-- A text of names is what is left of a name before a NUL. -/
theorem isText_takeWhile {path : List UInt8} (h : Utf8.IsText (unixName path)) :
    Utf8.IsText (path.takeWhile (· ≠ 0)) := by
  rw [unixName] at h
  split at h
  · rename_i hhead
    obtain ⟨rest, rfl⟩ := List.head?_eq_some_iff.mp hhead
    exact Utf8.isText_nil
  · exact h

/-- A name that is neither abstract nor missing is what is before the first NUL. -/
theorem unixName_eq_takeWhile {path : List UInt8} (h : path.takeWhile (· ≠ 0) ≠ []) :
    unixName path = path.takeWhile (· ≠ 0) := by
  rw [unixName, if_neg]
  intro hhead
  obtain ⟨rest, rfl⟩ := List.head?_eq_some_iff.mp hhead
  exact h rfl

theorem takeWhile_of_hidden {path : List UInt8}
    (h : unixName path = [] ∨ (unixName path).head? = some 0) : path.takeWhile (· ≠ 0) = [] := by
  rw [unixName] at h
  split at h
  · rename_i hhead
    obtain ⟨rest, rfl⟩ := List.head?_eq_some_iff.mp hhead
    rfl
  · refine h.resolve_right fun hzero => ?_
    have hne := List.mem_takeWhile_imp (List.mem_of_mem_head? hzero)
    simp at hne

theorem hidden_name {path : List UInt8} (h : path.takeWhile (· ≠ 0) = []) :
    unixName path = [] ∨ (unixName path).head? = some 0 := by
  rw [unixName]
  split
  · rename_i hhead
    exact .inr hhead
  · exact .inl h

theorem not_mem_ipv6Text {x : Char} (hx : x ∈ ['[', ']']) (octets : List UInt8) :
    x ∉ (ipv6Text octets).toList := by
  have hx' : x ∈ ['.', '[', ']'] := List.mem_cons_of_mem _ hx
  have hx'' : x ∈ ['.', ':', '[', ']'] := List.mem_cons_of_mem _ (List.mem_cons_of_mem _ hx)
  by_cases hmapped : octets.take 12 = [0, 0, 0, 0, 0, 0, 0, 0, 0, 0, 255, 255]
  · rw [ipv6Text, if_pos hmapped, String.toList_append, List.mem_append, not_or]
    refine ⟨fun hmem => ?_, fun hmem => ?_⟩
    · rcases List.mem_pair.mp hx with rfl | rfl
      · exact absurd hmem (by decide)
      · exact absurd hmem (by decide)
    · rcases mem_ipv4Text hmem with rfl | ⟨n, hdigit⟩
      · exact absurd hx (by decide)
      · exact not_mem_toDigits (by decide) (by decide) hx'' n hdigit
  · exact not_mem_ipv6Text_of_ne hx' hmapped

theorem not_mem_ipv4Text {x : Char} (hx : x ∈ [':', '[', ']']) (a b c d : UInt8) :
    x ∉ (ipv4Text a b c d).toList := fun hmem => by
  rcases mem_ipv4Text hmem with rfl | ⟨n, hdigit⟩
  · exact absurd hx (by decide)
  · exact not_mem_toDigits (by decide) (by decide) (List.mem_cons_of_mem _ hx) n hdigit

/-- No text of an IPv4 address starts with a bracket. -/
theorem ipv4Text_append_ne (a b c d : UInt8) (rest rest' : List Char) :
    (ipv4Text a b c d).toList ++ rest ≠ '[' :: rest' := by
  intro heq
  cases hlist : (ipv4Text a b c d).toList with
  | nil =>
    have hdot := dot_mem_ipv4Text a b c d
    rw [hlist] at hdot
    exact absurd hdot List.not_mem_nil
  | cons first others =>
    rw [hlist, List.cons_append] at heq
    refine not_mem_ipv4Text (x := '[') (by decide) a b c d ?_
    rw [hlist, (List.cons.inj heq).1]
    exact List.mem_cons_self

theorem colon_not_mem_port (port : ℕ) : ':' ∉ Nat.toDigits 10 port :=
  not_mem_toDigits (by decide) (by decide) (by decide) port

theorem bracket_not_mem_port (port : ℕ) : ']' ∉ ':' :: Nat.toDigits 10 port := by
  rw [List.mem_cons, not_or]
  exact ⟨by decide, not_mem_toDigits (by decide) (by decide) (by decide) port⟩

theorem port_injective : Function.Injective (Nat.toDigits 10) :=
  toDigits_injective (by decide) (by decide)

/-- **Endpoints with one identifier** are the same, unless they are Unix sockets whose names begin
with a NUL or are missing. -/
theorem Identifies.unique {endpoint endpoint' : Endpoint} {identifier : List Char}
    (h : Identifies endpoint identifier) (h' : Identifies endpoint' identifier)
    (htext : ∀ name, endpoint = .unix name → Utf8.IsText name)
    (htext' : ∀ name, endpoint' = .unix name → Utf8.IsText name) :
    endpoint = endpoint' ∨ ∃ name name', endpoint = .unix name ∧ endpoint' = .unix name' ∧
      (name = [] ∨ name.head? = some 0) ∧ (name' = [] ∨ name'.head? = some 0) := by
  cases h with
  | inet a b c d port =>
    generalize hlist : "TCP:".toList ++ ((ipv4Text a b c d).toList ++ ':' :: Nat.toDigits 10 port) =
      list at h'
    cases h' with
    | inet a' b' c' d' port' =>
      obtain ⟨haddress, -, hport⟩ := (List.append_cons_inj_of_notMem
        (not_mem_ipv4Text (by decide) a b c d) (colon_not_mem_port port)).mp
          (List.append_cancel_left hlist)
      rw [ipv4Text_injective (String.toList_injective haddress), port_injective hport]
      exact .inl rfl
    | inet6 octets hoctets port' =>
      exact (ipv4Text_append_ne _ _ _ _ _ _ (List.append_cancel_left hlist)).elim
    | unix path => cases hlist
  | inet6 octets hoctets port =>
    generalize hlist : "TCP:".toList ++ '[' :: ((ipv6Text octets).toList ++ ']' :: ':' ::
      Nat.toDigits 10 port) = list at h'
    cases h' with
    | inet a b c d port' =>
      exact (ipv4Text_append_ne _ _ _ _ _ _ (List.append_cancel_left hlist).symm).elim
    | inet6 octets' hoctets' port' =>
      obtain ⟨haddress, -, hport⟩ := (List.append_cons_inj_of_notMem
        (not_mem_ipv6Text (by decide) octets) (bracket_not_mem_port port)).mp
          (List.cons.inj (List.append_cancel_left hlist)).2
      rw [ipv6Text_injective hoctets hoctets' (String.toList_injective haddress),
        port_injective (List.cons.inj hport).2]
      exact .inl rfl
    | unix path => cases hlist
  | unix path =>
    generalize hlist : "UNIX:".toList ++ (Utf8.lossy (path.takeWhile (· ≠ 0))).toList = list at h'
    cases h' with
    | inet a b c d port => cases hlist
    | inet6 octets hoctets port => cases hlist
    | unix path' =>
      obtain ⟨chars, hchars⟩ := isText_takeWhile (htext _ rfl)
      obtain ⟨chars', hchars'⟩ := isText_takeWhile (htext' _ rfl)
      have hlossy := String.toList_injective (List.append_cancel_left hlist)
      rw [hchars, hchars', Utf8.lossy_encode, Utf8.lossy_encode] at hlossy
      rw [String.ofList_injective hlossy, ← hchars'] at hchars
      rcases eq_or_ne (path.takeWhile (· ≠ 0)) [] with hnil | hne
      · exact .inr ⟨_, _, rfl, rfl, hidden_name hnil, hidden_name (hchars.symm.trans hnil)⟩
      · left
        rw [unixName_eq_takeWhile hne, unixName_eq_takeWhile (hchars ▸ hne), hchars]

/-- An abstract name, or none, leaves nothing of the identifier. -/
theorem socketIdentifier_of_hidden {bytes : List UInt8} (h : Hidden bytes) :
    socketIdentifier bytes = .ok "UNIX:" := by
  obtain ⟨name, hendpoint, hname⟩ := h
  rw [endpointOf] at hendpoint
  rw [socketIdentifier]
  split_ifs at hendpoint ⊢ with hshort hinet hinet8 hinet6 hinet24 hunix
  · cases hendpoint
  · cases hendpoint
  · obtain rfl : unixName (bytes.drop 2) = name := by
      injection Option.some.inj hendpoint
    rw [takeWhile_of_hidden hname]
    rfl

/-- **Different endpoints get different identifiers**, unless both are Unix sockets with abstract
names or none. -/
theorem distinguished_iff {bytes bytes' : List UInt8} (h : NamedInUtf8 bytes)
    (h' : NamedInUtf8 bytes') : Distinguished bytes bytes' ↔
      ¬ (Hidden bytes ∧ Hidden bytes' ∧ endpointOf bytes ≠ endpointOf bytes') := by
  refine ⟨?_, fun hnot identifier hid hid' => ?_⟩
  · rintro hdistinguished ⟨hhidden, hhidden', hne⟩
    exact hne (hdistinguished _ (socketIdentifier_of_hidden hhidden)
      (socketIdentifier_of_hidden hhidden'))
  · obtain ⟨endpoint, hendpoint, hidentifies⟩ := identifies_of_socketIdentifier hid
    obtain ⟨endpoint', hendpoint', hidentifies'⟩ := identifies_of_socketIdentifier hid'
    rcases hidentifies.unique hidentifies' (fun name heq => h name (heq ▸ hendpoint))
      (fun name heq => h' name (heq ▸ hendpoint')) with rfl | ⟨name, name', rfl, rfl, hname, hname'⟩
    · rw [hendpoint, hendpoint']
    · by_contra hne
      exact hnot ⟨⟨name, hendpoint, hname⟩, ⟨name', hendpoint', hname'⟩, hne⟩

/-- The addresses of `/a` and of `/b`, and of the abstract names `a` and `b`. -/
def fileA : List UInt8 := [1, 0, 47, 97, 0]

def fileB : List UInt8 := [1, 0, 47, 98, 0]

def abstractA : List UInt8 := [1, 0, 0, 97]

def abstractB : List UInt8 := [1, 0, 0, 98]

theorem namedInUtf8_of_eq {bytes n : List UInt8} (h : endpointOf bytes = some (.unix n))
    (htext : Utf8.IsText n) : NamedInUtf8 bytes := by
  intro name hname
  rw [h] at hname
  obtain rfl : n = name := by
    injection Option.some.inj hname
  exact htext

/-- `/a` and `/b` are two endpoints, neither of them is hidden, and they are told apart. -/
theorem distinguished_iff_files : endpointOf fileA ≠ endpointOf fileB ∧
    Distinguished fileA fileB := by
  refine ⟨by decide +kernel, (distinguished_iff ?_ ?_).mpr ?_⟩
  · exact namedInUtf8_of_eq (n := [47, 97]) (by decide +kernel) ⟨['/', 'a'], rfl⟩
  · exact namedInUtf8_of_eq (n := [47, 98]) (by decide +kernel) ⟨['/', 'b'], rfl⟩
  · rintro ⟨⟨name, hname, hhidden⟩, -⟩
    obtain rfl : [47, 97] = name := by
      injection Option.some.inj ((by decide +kernel :
        endpointOf fileA = some (.unix [47, 97])).symm.trans hname)
    exact absurd hhidden (by decide)

/-- Two abstract sockets have one identifier. -/
theorem not_distinguished_abstract : NamedInUtf8 abstractA ∧ NamedInUtf8 abstractB ∧
    ¬ Distinguished abstractA abstractB := by
  refine ⟨?_, ?_, fun hdistinguished => ?_⟩
  · exact namedInUtf8_of_eq (n := [0, 97]) (by decide +kernel) ⟨[Char.ofNat 0, 'a'], rfl⟩
  · exact namedInUtf8_of_eq (n := [0, 98]) (by decide +kernel) ⟨[Char.ofNat 0, 'b'], rfl⟩
  · have heq := hdistinguished "UNIX:" (by decide +kernel) (by decide +kernel)
    revert heq
    decide +kernel

end ConflictGraph.Rust
