import Selebrow.Capabilities.Hash

/-!
# Pool names

`getUniquePoolName` makes the name of the pool that serves a request: protocol,
browser name and the hash of the capabilities in hexadecimal.  Two requests with one
pool name share their browsers, so they should ask for the same browser.  With a
hash that is injective on the bytes written they do exactly if those bytes have one
layout.
-/

namespace Selebrow.Pool

open Capabilities

/-- The digit of a number below 16. -/
def hexDigit (n : Nat) : UInt8 := if n < 10 then 48 + n.toUInt8 else 87 + n.toUInt8

/-- `hex.EncodeToString` -/
def encodeToString (src : GoString) : GoString :=
  src.flatMap fun b => [hexDigit (b.toNat / 16), hexDigit (b.toNat % 16)]

def getUniquePoolName (getHash : Capabilities → GoString) (protocol : GoString)
    (caps : Capabilities) : GoString :=
  protocol ++ bytes "-" ++ caps.name ++ bytes "-" ++ encodeToString (getHash caps)

theorem hexDigit_inj : ∀ m < 16, ∀ n < 16, hexDigit m = hexDigit n → m = n := by decide

theorem hexDigit_ne_dash : ∀ n < 16, hexDigit n ≠ 45 := by decide

theorem encodeToString_inj {s t : GoString} (h : encodeToString s = encodeToString t) : s = t := by
  induction s generalizing t with
  | nil =>
    cases t with
    | nil => rfl
    | cons c t => simp [encodeToString] at h
  | cons b s ih =>
    cases t with
    | nil => simp [encodeToString] at h
    | cons c t =>
      simp only [encodeToString, List.flatMap_cons, List.cons_append, List.nil_append,
        List.cons.injEq] at h
      have hb := b.toNat_lt
      have hc := c.toNat_lt
      have hhigh := hexDigit_inj _ (by omega) _ (by omega) h.1
      have hlow := hexDigit_inj _ (by omega) _ (by omega) h.2.1
      have hbc : b = c := UInt8.toNat_inj.mp (by omega)
      rw [hbc, ih h.2.2]

theorem dash_notMem_encodeToString (s : GoString) : (45 : UInt8) ∉ encodeToString s := by
  intro h
  obtain ⟨b, _, hb⟩ := List.mem_flatMap.mp h
  have hlt := b.toNat_lt
  simp only [List.mem_cons, List.not_mem_nil, or_false] at hb
  rcases hb with hb | hb
  · exact hexDigit_ne_dash _ (by omega) hb.symm
  · exact hexDigit_ne_dash _ (by omega) hb.symm

/-- One pool name means one browser name and one hash. -/
theorem getUniquePoolName_inj {getHash : Capabilities → GoString} {protocol : GoString}
    {a b : Capabilities}
    (h : getUniquePoolName getHash protocol a = getUniquePoolName getHash protocol b) :
    a.name = b.name ∧ getHash a = getHash b := by
  simp only [getUniquePoolName, List.append_assoc] at h
  have h := (List.append_inj (List.append_inj h rfl).2 rfl).2
  obtain ⟨hname, hhash⟩ := Text.append_cons_inj (dash_notMem_encodeToString _)
    (dash_notMem_encodeToString _) h
  exact ⟨hname, encodeToString_inj hhash⟩

/-- Two requests with one pool name ask for the same browser exactly if everything
they write to the hash has the same length. -/
theorem sameConfiguration_iff_sameLayout {sum : GoString → GoString}
    (hsum : Function.Injective sum) {protocol : GoString} {a b : Capabilities}
    (h : getUniquePoolName (getHash sum) protocol a = getUniquePoolName (getHash sum) protocol b) :
    SameConfiguration a b ↔ SameLayout a b := by
  obtain ⟨hname, hhash⟩ := getUniquePoolName_inj h
  exact ⟨SameConfiguration.sameLayout,
    sameConfiguration_of_hashInput (hsum hhash) hname⟩

/-- Requests for the same browser have one pool name, whatever the hash. -/
theorem getUniquePoolName_eq {sum : GoString → GoString} {protocol : GoString}
    {a b : Capabilities} (h : SameConfiguration a b) :
    getUniquePoolName (getHash sum) protocol a = getUniquePoolName (getHash sum) protocol b := by
  rw [getUniquePoolName, getUniquePoolName, getHash, getHash, h.hashInput_eq, h.name]

/-- Capabilities for the browser `chrome` and nothing else. -/
def chrome : Capabilities :=
  { platform := [], name := bytes "chrome", flavor := [], version := [], resolution := [],
    envs := [], vncEnabled := false, labels := ⟨[], List.nodup_nil⟩, links := [], hosts := [],
    networks := [] }

theorem sameConfiguration_iff_sameLayout_chrome :
    SameConfiguration { chrome with envs := [bytes "B=2", bytes "A=1"] }
        { chrome with envs := [bytes "A=1", bytes "B=2"] } ↔
      SameLayout { chrome with envs := [bytes "B=2", bytes "A=1"] }
        { chrome with envs := [bytes "A=1", bytes "B=2"] } := by
  have hname : getUniquePoolName (getHash id) (bytes "webdriver")
      { chrome with envs := [bytes "B=2", bytes "A=1"] } =
        getUniquePoolName (getHash id) (bytes "webdriver")
          { chrome with envs := [bytes "A=1", bytes "B=2"] } := by decide
  exact sameConfiguration_iff_sameLayout Function.injective_id hname

/-- Flavor `a` with version `b` and flavor `ab` with no version write the same bytes. -/
theorem poolName_collision :
    ¬ ∀ (sum : GoString → GoString), Function.Injective sum →
      ∀ (protocol : GoString) (a b : Capabilities),
        getUniquePoolName (getHash sum) protocol a = getUniquePoolName (getHash sum) protocol b →
          SameConfiguration a b := by
  intro h
  have hflavor := (h id Function.injective_id (bytes "webdriver")
    { chrome with flavor := bytes "a", version := bytes "b" }
    { chrome with flavor := bytes "ab" } (by decide)).flavor
  revert hflavor
  decide

end Selebrow.Pool
