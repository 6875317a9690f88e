import Selebrow.Net.Url

/-!
# Asking the rules about an address

`ResolveProxyFunc` wraps the function that picks an upstream proxy for a URL.  It asks
that function about the address of the host in place of its name, and puts the address
into a copy of the URL: the two URLs are cells of a heap here, so that it shows what is
written where.  `net.ParseIP` and the resolver are parameters.
-/

namespace Selebrow.Proxy

open Net

/-- The cells that pointers to URLs lead to; those from `next` on are free. -/
structure Heap where
  cells : Nat → URL
  next : Nat

/-- A heap with one URL, at 0. -/
def heapOf (u : URL) : Heap := ⟨fun _ => u, 1⟩

namespace Heap

def alloc (heap : Heap) (u : URL) : Heap where
  cells := fun p => if p = heap.next then u else heap.cells p
  next := heap.next + 1

def setHost (heap : Heap) (ipURL : Nat) (host : GoString) : Heap :=
  { heap with cells := fun p =>
      if p = ipURL then { heap.cells p with host := host } else heap.cells p }

end Heap

section Resolve

variable {IP : Type} (parseIP : GoString → Option IP)
  (lookupHost : GoString → Except GoString (List GoString))

/-- `proxyFunc` is called with a pointer, and with the heap as it is then. -/
def resolveProxyFunc {Result : Type} (proxyFunc : Heap → Nat → Result) (heap : Heap) (u : Nat) :
    Result :=
  let host := (heap.cells u).hostname
  match parseIP host with
  | some _ => proxyFunc heap u
  | none =>
    match lookupHost host with
    | .error _ => proxyFunc heap u
    | .ok [] => proxyFunc heap u
    | .ok (addr :: _) =>
      let ipURL := heap.next
      let heap := (heap.alloc (heap.cells u)).setHost ipURL addr
      let port := (heap.cells u).port
      let heap := if port ≠ [] then heap.setHost ipURL (joinHostPort addr port) else heap
      proxyFunc heap ipURL

/-- The first address of the host, if it is a name that resolves. -/
def firstAddress (host : GoString) : Option GoString :=
  match parseIP host with
  | some _ => none
  | none =>
    match lookupHost host with
    | .error _ => none
    | .ok addrs => addrs.head?

/-- What the wrapped function is asked about `u`: the heap and the pointer it gets. -/
def asked (heap : Heap) (u : Nat) : Heap × Nat :=
  resolveProxyFunc parseIP lookupHost Prod.mk heap u

/-- The URL it gets. -/
def askedURL (heap : Heap) (u : Nat) : URL :=
  (asked parseIP lookupHost heap u).1.cells (asked parseIP lookupHost heap u).2

/-- The URL that is asked about names the address instead of the host, and nothing else
is different. -/
structure AsksAboutAddress (heap : Heap) (u : Nat) : Prop where
  hostname : (askedURL parseIP lookupHost heap u).hostname =
    (firstAddress parseIP lookupHost (heap.cells u).hostname).getD (heap.cells u).hostname
  port : (askedURL parseIP lookupHost heap u).port = (heap.cells u).port
  scheme : (askedURL parseIP lookupHost heap u).scheme = (heap.cells u).scheme
  path : (askedURL parseIP lookupHost heap u).path = (heap.cells u).path
  rawQuery : (askedURL parseIP lookupHost heap u).rawQuery = (heap.cells u).rawQuery
  caller : (asked parseIP lookupHost heap u).1.cells u = heap.cells u

/-- The address can stand for a host of a URL with this port: it has no brackets that
would be dropped, and without a port it does not end as if it had one. -/
structure Fits (addr port : GoString) : Prop where
  brackets : Bracketed addr → port ≠ [] ∧ 58 ∈ addr
  noPort : port = [] → ¬ EndsInPort addr

/-- The host of the copy. -/
def addressHost (addr port : GoString) : GoString :=
  if port ≠ [] then joinHostPort addr port else addr

variable {parseIP lookupHost} {heap : Heap} {u : Nat}

/-! ## What is asked -/

theorem resolveProxyFunc_eq {Result : Type} (proxyFunc : Heap → Nat → Result) :
    resolveProxyFunc parseIP lookupHost proxyFunc heap u =
      proxyFunc (asked parseIP lookupHost heap u).1 (asked parseIP lookupHost heap u).2 := by
  simp only [asked, resolveProxyFunc]
  cases parseIP (heap.cells u).hostname with
  | some ip => rfl
  | none =>
    cases lookupHost (heap.cells u).hostname with
    | error err => rfl
    | ok addrs =>
      cases addrs with
      | nil => rfl
      | cons addr rest => rfl

/-- Where there is no address, the question is about the URL of the caller. -/
theorem asked_of_none (h : firstAddress parseIP lookupHost (heap.cells u).hostname = none) :
    asked parseIP lookupHost heap u = (heap, u) := by
  rw [firstAddress] at h
  simp only [asked, resolveProxyFunc]
  cases hip : parseIP (heap.cells u).hostname with
  | some ip => rfl
  | none =>
    rw [hip] at h
    cases hlookup : lookupHost (heap.cells u).hostname with
    | error err => rfl
    | ok addrs =>
      rw [hlookup] at h
      cases addrs with
      | nil => rfl
      | cons addr rest => contradiction

/-- Where there is one, the question is about a copy. -/
theorem asked_of_some {addr : GoString} (hu : u < heap.next)
    (h : firstAddress parseIP lookupHost (heap.cells u).hostname = some addr) :
    askedURL parseIP lookupHost heap u =
        { heap.cells u with host := addressHost addr (heap.cells u).port } ∧
      (asked parseIP lookupHost heap u).1.cells u = heap.cells u := by
  have hne : u ≠ heap.next := Nat.ne_of_lt hu
  rw [firstAddress] at h
  simp only [askedURL, asked, resolveProxyFunc, addressHost]
  cases hip : parseIP (heap.cells u).hostname with
  | some ip =>
    rw [hip] at h
    contradiction
  | none =>
    rw [hip] at h
    cases hlookup : lookupHost (heap.cells u).hostname with
    | error err =>
      rw [hlookup] at h
      contradiction
    | ok addrs =>
      rw [hlookup] at h
      cases addrs with
      | nil => contradiction
      | cons first rest =>
        cases h
        simp only [Heap.alloc, Heap.setHost, if_neg hne]
        by_cases hport : (heap.cells u).port = []
        · simp [hport, hne]
        · simp [hport, hne]

/-- The scheme is asked about as it is. -/
theorem scheme_askedURL (hu : u < heap.next) :
    (askedURL parseIP lookupHost heap u).scheme = (heap.cells u).scheme := by
  cases haddr : firstAddress parseIP lookupHost (heap.cells u).hostname with
  | none => rw [askedURL, asked_of_none haddr]
  | some addr => rw [(asked_of_some hu haddr).1]

/-! ## Reading it back -/

theorem splitHostPort_addressHost (addr : GoString) {port : GoString}
    (h : port.all isDigit = true) :
    splitHostPort (addressHost addr port) = (addr, port) ↔ Fits addr port := by
  rw [addressHost]
  by_cases hport : port = []
  · rw [if_neg (Classical.not_not.mpr hport), hport, splitHostPort_eq_self_iff]
    constructor
    · rintro ⟨hends, hbrackets⟩
      exact ⟨fun hb => absurd hb hbrackets, fun _ => hends⟩
    · intro hfits
      exact ⟨hfits.noPort rfl, fun hb => (hfits.brackets hb).1 rfl⟩
  · rw [if_pos hport, splitHostPort_joinHostPort h]
    by_cases hcolon : (58 : UInt8) ∈ addr
    · rw [if_pos hcolon]
      exact ⟨fun _ => ⟨fun _ => ⟨hport, hcolon⟩, fun hnil => absurd hnil hport⟩, fun _ => rfl⟩
    · rw [if_neg hcolon, Prod.mk.injEq, and_iff_left rfl, stripBrackets_eq_self_iff]
      constructor
      · intro hb
        exact ⟨fun hbrackets => absurd hbrackets hb, fun hnil => absurd hnil hport⟩
      · intro hfits hb
        exact hcolon (hfits.brackets hb).2

/-- The rules are asked about the address exactly when it can stand for the host. -/
theorem asksAboutAddress_iff (hu : u < heap.next) :
    AsksAboutAddress parseIP lookupHost heap u ↔
      ∀ addr, firstAddress parseIP lookupHost (heap.cells u).hostname = some addr →
        Fits addr (heap.cells u).port := by
  have hdigits := digits_port (heap.cells u)
  cases haddr : firstAddress parseIP lookupHost (heap.cells u).hostname with
  | none =>
    have hasked := asked_of_none haddr
    constructor
    · intro _ addr h
      contradiction
    · intro _
      constructor <;> simp [askedURL, hasked, haddr]
  | some addr =>
    obtain ⟨hurl, hcaller⟩ := asked_of_some hu haddr
    have hread := splitHostPort_addressHost addr hdigits
    constructor
    · intro h addr' heq
      cases heq
      apply hread.mp
      have hhost := h.hostname
      have hport := h.port
      rw [hurl] at hhost hport
      rw [haddr] at hhost
      exact Prod.ext hhost hport
    · intro h
      have hboth := hread.mpr (h addr rfl)
      constructor
      · rw [hurl, haddr]
        exact (Prod.ext_iff.mp hboth).1
      · rw [hurl]
        exact (Prod.ext_iff.mp hboth).2
      · rw [hurl]
      · rw [hurl]
      · rw [hurl]
      · exact hcaller

end Resolve

/-! ## Two addresses -/

def exampleURL (host : String) : URL := ⟨bytes "http", bytes host, bytes "/path", []⟩

/-- Neither of the names below is an address. -/
def noIP : GoString → Option Unit := fun _ => none

def answer (addr : String) : GoString → Except GoString (List GoString) :=
  fun _ => .ok [bytes addr]

/-- An IPv6 address is written with brackets in front of a port. -/
theorem asksAboutAddress_port :
    AsksAboutAddress noIP (answer "2001:db8::1") (heapOf (exampleURL "example.com:8080")) 0 := by
  apply (asksAboutAddress_iff Nat.zero_lt_one).mpr
  intro addr h
  cases h
  constructor
  · intro hbrackets
    exact absurd hbrackets (by decide)
  · intro hport
    exact absurd hport (by decide)

/-- Without a port it is not, and its last group is taken for one. -/
theorem address_misread :
    (askedURL noIP (answer "2001:db8::1") (heapOf (exampleURL "example.com")) 0).hostname =
        bytes "2001:db8:" ∧
      (askedURL noIP (answer "2001:db8::1") (heapOf (exampleURL "example.com")) 0).port =
        bytes "1" ∧
      ¬ AsksAboutAddress noIP (answer "2001:db8::1") (heapOf (exampleURL "example.com")) 0 := by
  refine ⟨by decide, by decide, ?_⟩
  intro h
  have hport := h.port
  exact absurd hport (by decide)

end Selebrow.Proxy
