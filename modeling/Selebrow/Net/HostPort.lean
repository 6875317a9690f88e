import Selebrow.Net.Url

/-!
# Splitting an address

`net.SplitHostPort` reads an address: the port is behind the last colon, and a host with
colons of its own stands in brackets.  What it accepts has one of two forms.
-/

namespace Selebrow.Net.HostPort

structure AddrError where
  err : GoString
  addr : GoString
deriving DecidableEq, Repr

def addrErr (addr : GoString) (why : String) : Except AddrError (GoString × GoString) :=
  .error ⟨bytes why, addr⟩

def missingPort : String := "missing port in address"
def tooManyColons : String := "too many colons in address"

/-- The end of `net.SplitHostPort`: there are no more brackets from these places on. -/
def accept (hostport : GoString) (j k : Nat) (host port : GoString) :
    Except AddrError (GoString × GoString) :=
  if 91 ∈ hostport.drop j then addrErr hostport "unexpected '[' in address"
  else if 93 ∈ hostport.drop k then addrErr hostport "unexpected ']' in address"
  else .ok (host, port)

/-- `net.SplitHostPort` -/
def splitHostPort (hostport : GoString) : Except AddrError (GoString × GoString) :=
  match splitLast 58 hostport with
  | none => addrErr hostport missingPort
  | some (before, port) =>
    if hostport.head? = some 91 then
      match splitAt 93 hostport with
      | (_, none) => addrErr hostport "missing ']' in address"
      | (front, some behind) =>
        if behind = [] then addrErr hostport missingPort
        else if front.length + 1 = before.length then
          accept hostport 1 (front.length + 1) front.tail port
        else if behind.head? = some 58 then addrErr hostport tooManyColons
        else addrErr hostport missingPort
    else if 58 ∈ before then addrErr hostport tooManyColons
    else accept hostport 0 0 before port

/-- The text of a host or of a port. -/
structure Unbracketed (s : GoString) : Prop where
  opening : 91 ∉ s
  closing : 93 ∉ s

variable {s host port : GoString}

theorem accept_eq_ok {j k : Nat} {e : GoString × GoString} (h : accept s j k host port = .ok e) :
    91 ∉ s.drop j ∧ 93 ∉ s.drop k ∧ e = (host, port) := by
  rw [accept] at h
  split at h
  · contradiction
  · rename_i hopening
    split at h
    · contradiction
    · rename_i hclosing
      cases h
      exact ⟨hopening, hclosing, rfl⟩

theorem accept_of_notMem {j k : Nat} (hopening : 91 ∉ s.drop j) (hclosing : 93 ∉ s.drop k) :
    accept s j k host port = .ok (host, port) := by
  rw [accept, if_neg hopening, if_neg hclosing]

/-! ## The two forms -/

/-- An address without brackets. -/
def plain (host port : GoString) : GoString := host ++ 58 :: port

/-- An address with brackets around its host. -/
def bracketed (host port : GoString) : GoString := 91 :: (host ++ 93 :: plain [] port)

theorem splitHostPort_plain (hhost : Unbracketed host) (hport : Unbracketed port)
    (hcolon : 58 ∉ host) (hlast : 58 ∉ port) :
    splitHostPort (plain host port) = .ok (host, port) := by
  have hmem : ∀ {b : UInt8}, b ≠ 58 → b ∉ host → b ∉ port → b ∉ plain host port := by
    intro b hne hh hp hb
    rcases List.mem_append.mp hb with hb | hb
    · exact hh hb
    · rcases List.mem_cons.mp hb with hb | hb
      · exact hne hb
      · exact hp hb
  have hopening := hmem (by decide) hhost.opening hport.opening
  have hclosing := hmem (by decide) hhost.closing hport.closing
  have hhead : (plain host port).head? ≠ some 91 := by
    intro hhead
    exact hopening (List.mem_of_head? hhead)
  rw [splitHostPort, plain, splitLast_append hlast]
  show (if (plain host port).head? = some 91 then _ else
    if 58 ∈ host then _ else accept (plain host port) 0 0 host port) = _
  rw [if_neg hhead, if_neg hcolon]
  exact accept_of_notMem hopening hclosing

theorem splitHostPort_bracketed (hhost : Unbracketed host) (hport : Unbracketed port)
    (hlast : 58 ∉ port) : splitHostPort (bracketed host port) = .ok (host, port) := by
  have hform : bracketed host port = (91 :: (host ++ [93])) ++ 58 :: port := by
    rw [bracketed, plain, List.cons_append, List.append_assoc]
    rfl
  have hclosing : 93 ∉ 91 :: host := by
    rw [List.mem_cons, not_or]
    exact ⟨by decide, hhost.closing⟩
  have hsplit : splitAt 93 (bracketed host port) = (91 :: host, some (58 :: port)) :=
    splitAt_append hclosing (58 :: port)
  have hlength : (91 :: host).length + 1 = (91 :: (host ++ [93])).length := by
    rw [List.length_cons, List.length_cons, List.length_append]
    rfl
  have hopening' : 91 ∉ (bracketed host port).drop 1 := by
    show 91 ∉ host ++ 93 :: 58 :: port
    rw [List.mem_append, List.mem_cons, List.mem_cons]
    rintro (h | h | h | h)
    · exact hhost.opening h
    · contradiction
    · contradiction
    · exact hport.opening h
  have hclosing' : 93 ∉ (bracketed host port).drop ((91 :: host).length + 1) := by
    rw [hlength, hform, List.drop_left, List.mem_cons]
    rintro (h | h)
    · contradiction
    · exact hport.closing h
  have hlast' : splitLast 58 (bracketed host port) = some (91 :: (host ++ [93]), port) := by
    rw [hform, splitLast_append hlast]
  have hhead : (bracketed host port).head? = some 91 := rfl
  simp only [splitHostPort, hlast', hsplit]
  rw [if_pos hhead, if_neg (List.cons_ne_nil _ _), if_pos hlength,
    accept_of_notMem hopening' hclosing', List.tail_cons]

theorem notMem_of_splitLast_eq_none {sep : UInt8} (h : splitLast sep s = none) : sep ∉ s := by
  intro hmem
  induction s with
  | nil => contradiction
  | cons b rest ih =>
    rw [splitLast] at h
    cases hrest : splitLast sep rest with
    | some e =>
      rw [hrest] at h
      contradiction
    | none =>
      rw [hrest] at h
      simp only at h
      split at h
      · contradiction
      · rename_i hb
        rcases List.mem_cons.mp hmem with hsep | hsep
        · exact hb hsep.symm
        · exact ih hrest hsep

theorem notMem_of_splitLast {sep : UInt8} {pre post : GoString}
    (h : splitLast sep s = some (pre, post)) : sep ∉ post := by
  induction s generalizing pre with
  | nil => contradiction
  | cons b rest ih =>
    rw [splitLast] at h
    cases hrest : splitLast sep rest with
    | some e =>
      rw [hrest] at h
      cases h
      exact ih hrest
    | none =>
      rw [hrest] at h
      simp only at h
      split at h
      · cases h
        exact notMem_of_splitLast_eq_none hrest
      · contradiction

theorem Unbracketed.of_append {a b : GoString} (hopening : 91 ∉ a ++ b) (hclosing : 93 ∉ a ++ b) :
    Unbracketed a ∧ Unbracketed b := by
  rw [List.mem_append, not_or] at hopening hclosing
  exact ⟨⟨hopening.1, hclosing.1⟩, ⟨hopening.2, hclosing.2⟩⟩

theorem Unbracketed.tail {b : UInt8} (h : Unbracketed (b :: s)) : Unbracketed s where
  opening := fun hmem => h.opening (List.mem_cons_of_mem b hmem)
  closing := fun hmem => h.closing (List.mem_cons_of_mem b hmem)

theorem bracketed_of_split {before front behind : GoString} (hs : s = before ++ 58 :: port)
    (happend : s = front ++ 93 :: behind) (hlength : front.length + 1 = before.length)
    (hhead : s.head? = some 91) (hnotMem : 93 ∉ front) (hopening : 91 ∉ s.drop 1)
    (hclosing : 93 ∉ s.drop (front.length + 1)) :
    Unbracketed front.tail ∧ Unbracketed port ∧ s = bracketed front.tail port := by
  have hparts : front ++ [93] ++ behind = before ++ 58 :: port := by
    rw [← hs, happend, List.append_assoc]
    rfl
  have hbefore : (front ++ [93]).length = before.length := by
    rw [List.length_append]
    exact hlength
  obtain ⟨_, hbehind⟩ := List.append_inj hparts hbefore
  rw [hbehind] at happend
  cases front with
  | nil =>
    rw [happend] at hhead
    exact absurd (Option.some.inj hhead) (by decide)
  | cons b host =>
    rw [happend] at hhead
    have hb : b = 91 := Option.some.inj hhead
    rw [hb] at happend
    have htail : s.drop 1 = host ++ 93 :: 58 :: port := by
      rw [happend]
      rfl
    have hport : s.drop ((b :: host).length + 1) = 58 :: port := by
      have hfront : (91 :: host ++ [93]).length = (b :: host).length + 1 := by
        rw [List.length_append]
        rfl
      have hform : s = (91 :: host ++ [93]) ++ 58 :: port := by
        rw [happend, List.append_assoc]
        rfl
      rw [hform, ← hfront, List.drop_left]
    rw [htail, List.mem_append, not_or] at hopening
    rw [hport] at hclosing
    rw [List.mem_cons, not_or] at hnotMem
    refine ⟨⟨hopening.1, hnotMem.2⟩, ⟨?_, ?_⟩, happend⟩
    · intro hmem
      exact hopening.2 (List.mem_cons_of_mem _ (List.mem_cons_of_mem _ hmem))
    · intro hmem
      exact hclosing (List.mem_cons_of_mem _ hmem)

/-- What an address that splits looks like. -/
theorem eq_of_splitHostPort (h : splitHostPort s = .ok (host, port)) :
    Unbracketed host ∧ Unbracketed port ∧ 58 ∉ port ∧
      (58 ∉ host ∧ s = plain host port ∨ s = bracketed host port) := by
  rw [splitHostPort] at h
  split at h
  · contradiction
  · rename_i before port' hlast
    have hs := splitLast_eq_some hlast
    have hport := notMem_of_splitLast hlast
    split at h
    · rename_i hhead
      split at h
      · contradiction
      · rename_i front behind hsplit
        split at h
        · contradiction
        · split at h
          · rename_i hlength
            obtain ⟨hopening, hclosing, heq⟩ := accept_eq_ok h
            cases heq
            have hnotMem := notMem_splitAt 93 s
            have happend : s = (splitAt 93 s).1 ++ 93 :: behind := append_of_splitAt (by rw [hsplit])
            rw [hsplit] at hnotMem happend
            obtain ⟨hhost, hrest, hform⟩ :=
              bracketed_of_split hs happend hlength hhead hnotMem hopening hclosing
            exact ⟨hhost, hrest, hport, .inr hform⟩
          · split at h
            · contradiction
            · contradiction
    · split at h
      · contradiction
      · rename_i hcolon
        obtain ⟨hopening, hclosing, heq⟩ := accept_eq_ok h
        cases heq
        rw [List.drop_zero] at hopening hclosing
        rw [hs] at hopening hclosing
        obtain ⟨hhost, hrest⟩ := Unbracketed.of_append hopening hclosing
        exact ⟨hhost, hrest.tail, hport, .inl ⟨hcolon, hs⟩⟩

/-! ## The addresses that programs write -/

/-- An address without brackets is read as it was written when the host has no colon. -/
theorem splitHostPort_plain_iff (hhost : Unbracketed host) (hport : Unbracketed port)
    (hlast : 58 ∉ port) : splitHostPort (plain host port) = .ok (host, port) ↔ 58 ∉ host := by
  constructor
  · intro h
    obtain ⟨_, _, _, hform⟩ := eq_of_splitHostPort h
    rcases hform with ⟨hcolon, _⟩ | hform
    · exact hcolon
    · have hopening : 91 ∈ plain host port := by
        rw [hform]
        exact List.mem_cons_self
      rcases List.mem_append.mp hopening with hmem | hmem
      · exact absurd hmem hhost.opening
      · rcases List.mem_cons.mp hmem with hmem | hmem
        · contradiction
        · exact absurd hmem hport.opening
  · intro hcolon
    exact splitHostPort_plain hhost hport hcolon hlast

/-- What is joined is split again, whatever the host. -/
theorem splitHostPort_joinHostPort (hhost : Unbracketed host) (hport : Unbracketed port)
    (hlast : 58 ∉ port) : splitHostPort (joinHostPort host port) = .ok (host, port) := by
  rw [joinHostPort]
  split
  · exact splitHostPort_bracketed hhost hport hlast
  · rename_i hcolon
    exact splitHostPort_plain hhost hport hcolon hlast

end Selebrow.Net.HostPort
