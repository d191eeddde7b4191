import Mathlib.Data.List.TakeWhile
import OtaAgent.Flags
import OtaAgent.Proofs.Text.Digits

set_option autoImplicit false

namespace OtaAgent

namespace Endpoint

variable {cs host port : List Char}

/-- A url with a host, which may be empty, and perhaps a port. -/
def naming (host : String) : Option Nat → String
  | some port => url ⟨host, port⟩
  | none => "tcp://" ++ host

/-- The endpoint of a host and perhaps a port, with what is usual for each that is missing. -/
def ofParts (host : String) (port : Option Nat) : Endpoint :=
  ⟨if host = "" then defaultHost else host, port.getD defaultPort⟩

/-- What is made of a port in front of which no host stands. -/
def hostless (port : Nat) : Endpoint := ⟨":" ++ toString port, defaultPort⟩

theorem ne_colon_of_mem_reverse (plain : ':' ∉ cs) : ∀ c ∈ cs.reverse, (c != ':') = true := by
  intro c among
  rw [bne_iff_ne]
  rintro rfl
  exact plain (List.mem_reverse.mp among)

theorem cutAtColon?_append (plain : ':' ∉ port) :
    cutAtColon? (host ++ ':' :: port) = some (host, port) := by
  have passes := ne_colon_of_mem_reverse plain
  have shape : (host ++ ':' :: port).reverse = port.reverse ++ ':' :: host.reverse := by simp
  have stops : (':' :: host.reverse).takeWhile (· != ':') = [] ∧
      (':' :: host.reverse).dropWhile (· != ':') = ':' :: host.reverse := ⟨rfl, rfl⟩
  rw [cutAtColon?, shape, List.dropWhile_append_of_pos passes,
    List.takeWhile_append_of_pos passes, stops.1, stops.2]
  simp

theorem cutAtColon?_of_notMem (plain : ':' ∉ cs) : cutAtColon? cs = none := by
  rw [cutAtColon?, List.dropWhile_eq_nil_iff.mpr (ne_colon_of_mem_reverse plain)]

theorem colon_notMem_toDigits (n : Nat) : ':' ∉ Nat.toDigits 10 n := by
  intro among
  have digit := Nat.isDigit_of_mem_toDigits (by decide) (Nat.le_refl 10) among
  revert digit
  decide

theorem port?_toDigits {n : Nat} (small : n ≤ maxPort) :
    port? (Nat.toDigits 10 n) = some n := by
  rw [port?, Text.unsigned?_toDigits, Option.filter_some_pos (by simpa using small)]

/-- What follows the last colon is the port, if something precedes it. -/
theorem ofAddress_port (full : host ≠ []) {n : Nat} (small : n ≤ maxPort) :
    ofAddress (host ++ ':' :: Nat.toDigits 10 n) = ⟨String.ofList host, n⟩ := by
  obtain ⟨c, rest, rfl⟩ := List.exists_cons_of_ne_nil full
  rw [ofAddress, cutAtColon?_append (colon_notMem_toDigits n)]
  simp only [port?_toDigits small, Option.getD_some]

theorem ofAddress_hostless (n : Nat) : ofAddress (':' :: Nat.toDigits 10 n) = hostless n := by
  have cut : cutAtColon? ([] ++ ':' :: Nat.toDigits 10 n) = some ([], Nat.toDigits 10 n) :=
    cutAtColon?_append (colon_notMem_toDigits n)
  rw [List.nil_append] at cut
  rw [ofAddress, cut, hostless, Nat.toString_eq_ofList_toDigits]
  simp

theorem ofAddress_of_notMem (plain : ':' ∉ cs) :
    ofAddress cs = ofParts (String.ofList cs) none := by
  rw [ofAddress, cutAtColon?_of_notMem plain, ofParts]
  by_cases empty : cs = [] <;> simp [empty]

theorem addressChars_scheme (cs : List Char) : addressChars (scheme ++ cs) = cs := rfl

/-- The url of an endpoint with a host is read as the endpoint. -/
theorem ofUrl_url (e : Endpoint) (small : e.port ≤ maxPort) :
    ofUrl e.url = if e.host = "" then hostless e.port else e := by
  have chars : e.url.toList = scheme ++ (e.host.toList ++ ':' :: Nat.toDigits 10 e.port) := by
    simp [url, scheme, toString]
  rw [ofUrl, chars, addressChars_scheme]
  split
  · rename_i empty
    rw [empty]
    exact ofAddress_hostless e.port
  · rename_i named
    rw [ofAddress_port (by simpa using named) small, String.ofList_toList]

theorem ofUrl_naming {host : String} (plain : ':' ∉ host.toList) {port : Option Nat}
    (small : ∀ n ∈ port, n ≤ maxPort) :
    ofUrl (naming host port) =
      if host = "" ∧ port.isSome then hostless (port.getD defaultPort)
      else ofParts host port := by
  cases port with
  | some n =>
    refine (ofUrl_url ⟨host, n⟩ (small n rfl)).trans ?_
    by_cases empty : host = "" <;> simp [empty, ofParts]
  | none =>
    have chars : (naming host none).toList = scheme ++ host.toList := by simp [naming, scheme]
    rw [ofUrl, chars, addressChars_scheme, ofAddress_of_notMem plain, String.ofList_toList,
      if_neg (by simp)]

theorem host_ofAddress (cs : List Char) : (ofAddress cs).host ≠ "" := by
  unfold ofAddress
  split
  · simp
  · split
    · decide
    · rename_i full
      simpa using full

theorem port_ofAddress (cs : List Char) : (ofAddress cs).port ≤ maxPort := by
  have usual : defaultPort ≤ maxPort := by decide
  unfold ofAddress
  split
  · rename_i digits _
    cases read : port? digits with
    | none => exact usual
    | some n => simpa using Option.filter_eq_some_iff.mp read |>.2
  · split <;> exact usual

theorem url_hostless_injective : Function.Injective fun port => url ⟨"", port⟩ := by
  intro n m same
  have chars := congrArg String.toList same
  have digits : Nat.toDigits 10 n = Nat.toDigits 10 m := by
    simpa [url, toString, Nat.toList_repr] using chars
  have read := Text.unsigned?_toDigits n
  rw [digits, Text.unsigned?_toDigits] at read
  exact (Option.some.inj read).symm

end Endpoint

namespace Flags

open Endpoint

variable {f : Flags}

/-- The endpoint that is made of the flags and, where they leave it open, of the endpoint that is
configured. -/
def endpoint (f : Flags) (configured : Endpoint) : Endpoint :=
  ⟨f.host.getD configured.host, f.port.getD configured.port⟩

theorem overlayUrl_of_given {url : String} (given : f.host.isSome ∨ f.port.isSome) :
    f.overlayUrl url = (f.endpoint (ofUrl url)).url :=
  if_pos (by simpa using given)

theorem overlayUrl_of_open {url : String} (host : f.host = none) (port : f.port = none) :
    f.overlayUrl url = url := by
  rw [overlayUrl, host, port]
  rfl

theorem port_endpoint (small : ∀ n ∈ f.port, n ≤ maxPort) (url : String) :
    (f.endpoint (ofUrl url)).port ≤ maxPort := by
  have configured : (ofUrl url).port ≤ maxPort := port_ofAddress _
  rw [endpoint]
  cases port : f.port with
  | none => exact configured
  | some n => exact small n port

/-- The url with the flags laid over it has the endpoint that is made of them, unless they give an
empty host. -/
theorem ofUrl_overlayUrl (small : ∀ n ∈ f.port, n ≤ maxPort) (url : String) :
    ofUrl (f.overlayUrl url) =
      if f.host = some "" then hostless (f.endpoint (ofUrl url)).port
      else f.endpoint (ofUrl url) := by
  by_cases given : f.host.isSome ∨ f.port.isSome
  · rw [overlayUrl_of_given given, ofUrl_url _ (port_endpoint small url)]
    have empty : (f.endpoint (ofUrl url)).host = "" ↔ f.host = some "" := by
      have configured : (ofUrl url).host ≠ "" := host_ofAddress _
      cases host : f.host <;> simp [endpoint, host, configured]
    simp only [empty]
  · simp only [not_or, Bool.not_eq_true, Option.isSome_eq_false_iff, Option.isNone_iff_eq_none]
      at given
    obtain ⟨host, port⟩ := given
    simp [overlayUrl_of_open host port, endpoint, host, port]

theorem overlayUrl_overlayUrl (small : ∀ n ∈ f.port, n ≤ maxPort) (url : String) :
    f.overlayUrl (f.overlayUrl url) = f.overlayUrl url ↔
      ¬ (f.host = some "" ∧ f.port = none ∧ (ofUrl url).port ≠ defaultPort) := by
  by_cases given : f.host.isSome ∨ f.port.isSome
  · have read := ofUrl_overlayUrl small url
    rw [overlayUrl_of_given given, overlayUrl_of_given given] at *
    rw [read]
    by_cases empty : f.host = some ""
    · -- The port that is read back is the usual one, whatever was written.
      have parts (e : Endpoint) : f.endpoint e = ⟨"", f.port.getD e.port⟩ := by
        rw [endpoint, empty, Option.getD_some]
      rw [if_pos empty, parts, parts, url_hostless_injective.eq_iff]
      cases port : f.port <;> simp [empty, hostless, eq_comm]
    · rw [if_neg empty]
      refine iff_of_true ?_ fun both => empty both.1
      cases host : f.host <;> cases port : f.port <;> simp [endpoint, host, port]
  · simp only [not_or, Bool.not_eq_true, Option.isSome_eq_false_iff, Option.isNone_iff_eq_none]
      at given
    obtain ⟨host, port⟩ := given
    simp [overlayUrl_of_open host port, host]

/-- Where files are fetched from stays as it is when the same flags come again. -/
theorem overlayTransfer_overlayTransfer (f : Flags) (url later : String) (c : Config.Delivery) :
    f.overlayTransfer later (f.overlayTransfer url c) = f.overlayTransfer url c := by
  unfold overlayTransfer
  cases f.user <;> cases f.host <;> cases f.identity <;> cases f.passwordEnv <;> cases c.host <;>
    rfl

theorem overlay_overlay (f : Flags) (c : Config) :
    f.overlay (f.overlay c) = f.overlay c ↔
      f.overlayUrl (f.overlayUrl c.bus.url) = f.overlayUrl c.bus.url := by
  constructor
  · intro same
    exact congrArg (·.bus.url) same
  · intro same
    have twice {α : Type} (given : Option α) (a : α) :
        given.getD (given.getD a) = given.getD a := by cases given <;> rfl
    simp only [overlay, same, overlayTransfer_overlayTransfer, twice, Bool.and_assoc,
      Bool.and_self, Bool.or_assoc, Bool.or_self]

section Composition

variable {host : String} {port : Option Nat}

/-- A url with a host is read as the host and the port that it names, and one with neither as what
is usual; flags that do not give an empty host put their parts in the place of these, and may come
again without effect. What goes wrong is said as well: where a port has no host in front of it. -/
theorem overlay_composes (c : Config) (plain : ':' ∉ host.toList)
    (small : ∀ n ∈ port, n ≤ maxPort) (given : ∀ n ∈ f.port, n ≤ maxPort)
    (configured : c.bus.url = naming host port) :
    (ofUrl c.bus.url =
      if host = "" ∧ port.isSome then hostless (port.getD defaultPort)
      else ofParts host port) ∧
    (ofUrl (f.overlay c).bus.url =
      if f.host = some "" then hostless (f.endpoint (ofUrl c.bus.url)).port
      else f.endpoint (ofUrl c.bus.url)) ∧
    (f.overlay (f.overlay c) = f.overlay c ↔
      ¬ (f.host = some "" ∧ f.port = none ∧ (ofUrl c.bus.url).port ≠ defaultPort)) := by
  refine ⟨?_, ofUrl_overlayUrl given c.bus.url, ?_⟩
  · rw [configured, ofUrl_naming plain small]
  · rw [overlay_overlay, overlayUrl_overlayUrl given]

/-- A port alone, and a user, are laid over a configuration that names both parts. -/
theorem overlay_composes_port :
    let c : Config := { Config.default [] with bus := ⟨"tcp://broker:9200", ⟨"/certs"⟩⟩ }
    let f : Flags := { port := some 9500, user := some "ota" }
    c.bus.url = naming "broker" (some 9200) ∧ ofUrl c.bus.url = ⟨"broker", 9200⟩ ∧
      ofUrl (f.overlay c).bus.url = ⟨"broker", 9500⟩ ∧ f.overlay (f.overlay c) = f.overlay c := by
  intro c f
  have named : c.bus.url = naming "broker" (some 9200) := by decide
  obtain ⟨read, laid, again⟩ :=
    @overlay_composes f "broker" (some 9200) c (by decide) (by decide) (by decide) named
  rw [read] at laid
  exact ⟨named, read, laid, again.mpr (by decide)⟩

/-- The colon and the port are taken for the host where no host stands, and the usual port for the
one that is named: a port that is given is put behind them. Flags that give an empty host lose the
port when they come again. -/
theorem ofUrl_hostless :
    let url := naming "" (some 9200)
    let port : Flags := { port := some 9500 }
    let host : Flags := { host := some "" }
    url = "tcp://:9200" ∧ ofUrl url = ⟨":9200", 9133⟩ ∧ ofUrl url ≠ ofParts "" (some 9200) ∧
      port.overlayUrl url = "tcp://:9200:9500" ∧
      host.overlayUrl "tcp://broker:9200" = "tcp://:9200" ∧
      host.overlayUrl (host.overlayUrl "tcp://broker:9200") = "tcp://:9133" := by
  decide +kernel

end Composition

end Flags
end OtaAgent
