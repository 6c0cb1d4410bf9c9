import Mathlib.Data.List.Chain
import Mathlib.Data.List.Find
import Mathlib.Data.List.Nodup
import Mathlib.Logic.Function.Basic
import Mathlib.Tactic.Common

/-!
# The device list

`main` opens the character buffer by its name.  The devices hang in a circular
list, each one linked to its neighbours in both directions; a device that is
registered comes first, unless it is turned away because it has no name.  Opening
walks around the list.
-/

namespace FpgaTrivia.Software

/-! ## The links -/

/-- The two fields of `alt_llist` at every address. -/
structure Links where
  next : Nat → Nat
  previous : Nat → Nat

/-- `alt_dev_list` and `alt_dev_null`, as they are initialised. -/
def altDevList (list devNull : Nat) (links : Links) : Links where
  next := Function.update (Function.update links.next devNull list) list devNull
  previous := Function.update (Function.update links.previous devNull list) list devNull

/-- `alt_llist_insert`, one assignment after the other. -/
def altLlistInsert (list entry : Nat) (links : Links) : Links :=
  let links := { links with previous := Function.update links.previous entry list }
  let links := { links with next := Function.update links.next entry (links.next list) }
  let links := { links with previous := Function.update links.previous (links.next list) entry }
  { links with next := Function.update links.next list entry }

/-- The links, and the last error. -/
structure Hal where
  links : Links
  altErrno : Int

/-- `EINVAL` of the C library. -/
def einval : Int :=
  22

/-- `alt_dev_llist_insert`.  The null pointer is the address 0, and a name that is
a null pointer is `none`. -/
def altDevLlistInsert (names : Nat → Option (List Char)) (dev list : Nat) (hal : Hal) :
    Int × Hal :=
  if dev = 0 ∨ names dev = none then (-einval, { hal with altErrno := einval })
  else (0, { hal with links := altLlistInsert list dev hal.links })

/-- `alt_dev_reg`. -/
def altDevReg (names : Nat → Option (List Char)) (list dev : Nat) (hal : Hal) : Int × Hal :=
  altDevLlistInsert names dev list hal

/-- Registrations one after the other, and what they return. -/
def altDevRegs (names : Nat → Option (List Char)) (list : Nat) : List Nat → Hal → List Int × Hal
  | [], hal => ([], hal)
  | dev :: devs, hal =>
      let (status, hal) := altDevReg names list dev hal
      let (statuses, hal) := altDevRegs names list devs hal
      (status :: statuses, hal)

/-- The device exists and has a name. -/
def Registrable (names : Nat → Option (List Char)) (dev : Nat) : Bool :=
  dev != 0 && (names dev).isSome

/-- The second node follows the first one. -/
def Links.Follows (links : Links) (a b : Nat) : Prop :=
  links.next a = b ∧ links.previous b = a

/-- The circle of `list` has these entries, in this order. -/
structure Links.Ring (links : Links) (list : Nat) (entries : List Nat) : Prop where
  linked : (list :: (entries ++ [list])).IsChain links.Follows
  apart : (list :: entries).Nodup

section Ring

variable {links : Links} {list entry : Nat} {entries : List Nat}

/-- Whatever is in the circle, the walk around it has a first node. -/
theorem exists_node (entries : List Nat) (list : Nat) :
    ∃ first rest, entries ++ [list] = first :: rest :=
  List.exists_cons_of_ne_nil (List.append_ne_nil_of_right_ne_nil entries (by simp))

/-- Only `/dev/null` is there before `alt_sys_init`. -/
theorem ring_altDevList {devNull : Nat} (other : devNull ≠ list) (links : Links) :
    (altDevList list devNull links).Ring list [devNull] where
  linked := by
    have out : (altDevList list devNull links).Follows list devNull := by
      refine ⟨Function.update_self _ _ _, ?_⟩
      exact (Function.update_of_ne other _ _).trans (Function.update_self _ _ _)
    have back : (altDevList list devNull links).Follows devNull list := by
      refine ⟨?_, Function.update_self _ _ _⟩
      exact (Function.update_of_ne other _ _).trans (Function.update_self _ _ _)
    exact List.isChain_cons_cons.mpr ⟨out, List.isChain_pair.mpr back⟩
  apart := List.nodup_cons.mpr
    ⟨fun inside => other (List.mem_singleton.mp inside).symm, List.nodup_singleton devNull⟩

section Insert

variable {first : Nat} {rest : List Nat}

theorem next_altLlistInsert (next : links.next list = first) :
    (altLlistInsert list entry links).next =
      Function.update (Function.update links.next entry first) list entry := by
  rw [← next]
  rfl

theorem previous_altLlistInsert (other : list ≠ entry) (next : links.next list = first) :
    (altLlistInsert list entry links).previous =
      Function.update (Function.update links.previous entry list) first entry := by
  change Function.update _ (Function.update links.next entry (links.next list) list) _ = _
  rw [Function.update_of_ne other, next]

/-- From the old first entry on the links stay.  The last node of the circle gets
a new successor, which is not in this part of it. -/
theorem isChain_altLlistInsert (other : list ≠ entry) (next : links.next list = first)
    (outside : entry ∉ first :: rest) (around : (first :: rest).Nodup)
    (linked : (first :: rest).IsChain links.Follows) :
    (first :: rest).IsChain (altLlistInsert list entry links).Follows := by
  have firstRest : first ∉ rest := (List.nodup_cons.mp around).1
  apply linked.imp_of_mem_tail_imp
  intro a b inside behind follows
  have notList : a ≠ list := by
    rintro rfl
    rw [Links.Follows, next] at follows
    exact firstRest (follows.1 ▸ behind)
  have notEntry : a ≠ entry := fun same => outside (same ▸ inside)
  have notFirst : b ≠ first := fun same => firstRest (same ▸ behind)
  have old : b ≠ entry := fun same => outside (same ▸ List.mem_cons_of_mem first behind)
  rw [Links.Follows, next_altLlistInsert next, previous_altLlistInsert other next,
    Function.update_of_ne notList, Function.update_of_ne notEntry, Function.update_of_ne notFirst,
    Function.update_of_ne old]
  exact follows

/-- The two new links. -/
theorem follows_altLlistInsert (other : list ≠ entry) (next : links.next list = first)
    (fresh : entry ≠ first) :
    (altLlistInsert list entry links).Follows list entry ∧
      (altLlistInsert list entry links).Follows entry first := by
  rw [Links.Follows, Links.Follows, next_altLlistInsert next, previous_altLlistInsert other next]
  constructor
  · rw [Function.update_self, Function.update_of_ne fresh, Function.update_self]
    exact ⟨rfl, rfl⟩
  · rw [Function.update_of_ne other.symm, Function.update_self, Function.update_self]
    exact ⟨rfl, rfl⟩

/-- The new entry comes first. -/
theorem Links.Ring.insert (ring : links.Ring list entries) (fresh : entry ∉ list :: entries) :
    (altLlistInsert list entry links).Ring list (entry :: entries) := by
  obtain ⟨linked, apart⟩ := ring
  obtain ⟨listEntries, distinct⟩ := List.nodup_cons.mp apart
  obtain ⟨entryList, entryEntries⟩ := List.ne_and_not_mem_of_not_mem_cons fresh
  constructor
  · have around : (entries ++ [list]).Nodup := by
      rw [List.nodup_append_comm]
      exact apart
    have outside : entry ∉ entries ++ [list] := by
      rw [List.mem_append, List.mem_singleton]
      rintro (inside | same)
      · exact entryEntries inside
      · exact entryList same
    obtain ⟨first, rest, nodes⟩ := exists_node entries list
    rw [nodes] at linked around outside
    obtain ⟨⟨next, -⟩, tail⟩ := List.isChain_cons_cons.mp linked
    have newLinks := follows_altLlistInsert (Ne.symm entryList) next
      (List.ne_of_not_mem_cons outside)
    have kept := isChain_altLlistInsert (Ne.symm entryList) next outside around tail
    rw [List.cons_append, nodes]
    exact List.isChain_cons_cons.mpr ⟨newLinks.1, List.isChain_cons_cons.mpr ⟨newLinks.2, kept⟩⟩
  · apply List.nodup_cons.mpr
    refine ⟨?_, List.nodup_cons.mpr ⟨entryEntries, distinct⟩⟩
    rw [List.mem_cons]
    rintro (same | inside)
    · exact entryList same.symm
    · exact listEntries inside

end Insert

section Registered

variable {names : Nat → Option (List Char)} {dev : Nat} {hal : Hal}

theorem altDevReg_of_registrable (registrable : Registrable names dev = true) :
    altDevReg names list dev hal =
      (0, { hal with links := altLlistInsert list dev hal.links }) := by
  simp only [Registrable, Bool.and_eq_true, bne_iff_ne, Option.isSome_iff_ne_none] at registrable
  rw [altDevReg, altDevLlistInsert, if_neg (not_or.mpr registrable)]

/-- A device that is turned away leaves the list alone. -/
theorem altDevReg_of_not_registrable (unfit : ¬ Registrable names dev = true) :
    altDevReg names list dev hal = (-einval, { hal with altErrno := einval }) := by
  simp only [Registrable, Bool.and_eq_true, bne_iff_ne, Option.isSome_iff_ne_none] at unfit
  rw [altDevReg, altDevLlistInsert, if_pos]
  by_contra fit
  exact unfit (not_or.mp fit)

/-- Every registration says whether the device has been turned away. -/
theorem altDevRegs_statuses (names : Nat → Option (List Char)) (list : Nat) (devs : List Nat)
    (hal : Hal) : (altDevRegs names list devs hal).1 =
      devs.map fun dev => if Registrable names dev = true then 0 else -einval := by
  induction devs generalizing hal with
  | nil => rfl
  | cons dev devs ih =>
      rw [altDevRegs, List.map_cons, ← ih (altDevReg names list dev hal).2]
      by_cases registrable : Registrable names dev = true
      · rw [altDevReg_of_registrable registrable, if_pos registrable]
      · rw [altDevReg_of_not_registrable registrable, if_neg registrable]

/-- The devices that have not been turned away hang in the list, the last one that
was registered first. -/
theorem Links.Ring.registered {devs : List Nat} (ring : hal.links.Ring list entries)
    (apart : (list :: entries ++ devs.filter (Registrable names)).Nodup) :
    (altDevRegs names list devs hal).2.links.Ring list
      ((devs.filter (Registrable names)).reverse ++ entries) := by
  induction devs generalizing hal entries with
  | nil => exact ring
  | cons dev devs ih =>
      by_cases registrable : Registrable names dev = true
      · rw [List.filter_cons_of_pos registrable] at apart ⊢
        have fresh : dev ∉ list :: entries := fun inside =>
          (List.nodup_append.mp apart).2.2 dev inside dev List.mem_cons_self rfl
        have later := (List.perm_middle.trans (List.Perm.swap list dev _)).nodup_iff.mp apart
        rw [altDevRegs, altDevReg_of_registrable registrable, List.reverse_cons, List.append_assoc]
        exact @ih (dev :: entries) { hal with links := altLlistInsert list dev hal.links }
          (ring.insert fresh) later
      · rw [List.filter_cons_of_neg registrable] at apart ⊢
        rw [altDevRegs, altDevReg_of_not_registrable registrable]
        exact @ih entries { hal with altErrno := einval } ring apart

end Registered

/-! ## Names -/

/-- `strcmp` at the rest of a name, and the loop that ends the name there. -/
def altUpCharBufferInit (suffix : List Char) : List Char → List Char
  | [] => []
  | c :: rest => if c :: rest = suffix then [] else c :: altUpCharBufferInit suffix rest

/-- `memcmp` of two names up to the end of the second one. -/
def sameName (devName name : List Char) : Bool :=
  (devName ++ ['\x00']).take (name.length + 1) == name ++ ['\x00']

/-- The loop of `alt_find_dev`.  Fuel that runs out gives none, and so does a name
that is a null pointer. -/
def altFindDevLoop (links : Links) (names : Nat → Option (List Char)) (name : List Char)
    (list : Nat) : Nat → Nat → Option (Option Nat)
  | 0, _ => none
  | fuel + 1, next =>
      if next = list then some none
      else
        match names next with
        | none => none
        | some devName =>
            if sameName devName name = true then some (some next)
            else altFindDevLoop links names name list fuel (links.next next)

/-- `alt_up_char_buffer_open_dev`, which is `alt_find_dev`. -/
def altUpCharBufferOpenDev (links : Links) (names : Nat → Option (List Char)) (name : List Char)
    (list fuel : Nat) : Option (Option Nat) :=
  altFindDevLoop links names name list fuel (links.next list)

/-- The name loses the suffix that it ends with. -/
theorem altUpCharBufferInit_append {suffix : List Char} (base : List Char) (text : suffix ≠ []) :
    altUpCharBufferInit suffix (base ++ suffix) = base := by
  induction base with
  | nil =>
      cases suffix with
      | nil => exact absurd rfl text
      | cons c rest => exact if_pos rfl
  | cons c base ih =>
      have longer : c :: (base ++ suffix) ≠ suffix := by
        intro same
        have length := congrArg List.length same
        rw [List.length_cons, List.length_append] at length
        omega
      rw [List.cons_append, altUpCharBufferInit, if_neg longer, ih]

theorem sameName_iff {devName name : List Char} (devText : '\x00' ∉ devName)
    (text : '\x00' ∉ name) : sameName devName name = true ↔ devName = name := by
  rw [sameName, beq_iff_eq]
  induction name generalizing devName with
  | nil =>
      cases devName with
      | nil => simp
      | cons c rest =>
          rw [List.mem_cons, not_or] at devText
          simp [Ne.symm devText.1]
  | cons c name ih =>
      rw [List.mem_cons, not_or] at text
      cases devName with
      | nil => simp [text.1]
      | cons d rest =>
          rw [List.mem_cons, not_or] at devText
          rw [List.cons_append, List.length_cons, List.take_succ_cons, List.cons_append,
            List.cons.injEq, ih devText.2 text.2, List.cons.injEq]

/-- The walk around the list, from any entry on. -/
theorem altFindDevLoop_eq {names : Nat → Option (List Char)} {name : List Char} {fuel node : Nat}
    {rest tail : List Nat} (split : rest ++ [list] = node :: tail)
    (linked : (rest ++ [list]).IsChain links.Follows) (apart : list ∉ rest)
    (texts : ∀ dev ∈ rest, ∃ devName, names dev = some devName ∧ '\x00' ∉ devName)
    (text : '\x00' ∉ name) (enough : rest.length < fuel) :
    altFindDevLoop links names name list fuel node =
      some (rest.find? fun dev => names dev = some name) := by
  induction rest generalizing fuel node tail with
  | nil =>
      obtain ⟨rfl, -⟩ := List.cons.inj split
      cases fuel with
      | zero => exact absurd enough (Nat.not_lt_zero _)
      | succ fuel => exact if_pos rfl
  | cons dev rest ih =>
      obtain ⟨rfl, -⟩ := List.cons.inj split
      rw [List.mem_cons, not_or] at apart
      obtain ⟨⟨devName, named, devText⟩, texts⟩ := List.forall_mem_cons.mp texts
      cases fuel with
      | zero => exact absurd enough (Nat.not_lt_zero _)
      | succ fuel =>
          rw [altFindDevLoop, if_neg (Ne.symm apart.1), named]
          change (if sameName devName name = true then _ else _) = _
          by_cases same : devName = name
          · rw [if_pos ((sameName_iff devText text).mpr same), List.find?_cons_of_pos]
            exact decide_eq_true (named.trans (congrArg some same))
          · rw [if_neg (mt (sameName_iff devText text).mp same), List.find?_cons_of_neg]
            · obtain ⟨next, behind, nodes⟩ := exists_node rest list
              rw [List.cons_append, nodes] at linked
              obtain ⟨⟨follows, -⟩, onwards⟩ := List.isChain_cons_cons.mp linked
              rw [follows]
              exact ih nodes (nodes ▸ onwards) apart.2 texts (Nat.lt_of_succ_lt_succ enough)
            · rw [decide_eq_true_iff, named]
              exact fun equal => same (Option.some.inj equal)

end Ring

/-- Whatever is registered, the list stays a circle: `/dev/null`, and before it the
devices with a name, the last one first; the others are turned away.  Opening
finds the device that has been registered last under the name, if there is one,
and comes back in any case. -/
theorem altUpCharBufferOpenDev_eq (links : Links) (errno : Int) {list devNull : Nat}
    {devs : List Nat} {names : Nat → Option (List Char)} {name : List Char}
    (apart : (list :: devNull :: devs.filter (Registrable names)).Nodup)
    (named : names devNull ≠ none)
    (texts : ∀ dev devName, names dev = some devName → '\x00' ∉ devName) (text : '\x00' ∉ name)
    {fuel : Nat} (enough : devs.length + 1 < fuel) :
    let (statuses, hal) := altDevRegs names list devs ⟨altDevList list devNull links, errno⟩
    statuses = (devs.map fun dev => if Registrable names dev = true then 0 else -einval) ∧
      hal.links.Ring list ((devs.filter (Registrable names)).reverse ++ [devNull]) ∧
      altUpCharBufferOpenDev hal.links names name list fuel =
        some (((devs.filter (Registrable names)).reverse ++ [devNull]).find? fun dev =>
          names dev = some name) := by
  have other : devNull ≠ list := (List.ne_of_not_mem_cons (List.nodup_cons.mp apart).1).symm
  have ring := @Links.Ring.registered list [devNull] names ⟨altDevList list devNull links, errno⟩
    devs (ring_altDevList other links) apart
  refine ⟨altDevRegs_statuses names list devs _, ring, ?_⟩
  have length : ((devs.filter (Registrable names)).reverse ++ [devNull]).length < fuel := by
    rw [List.length_append, List.length_reverse]
    have most := List.length_filter_le (Registrable names) devs
    exact Nat.lt_of_le_of_lt (Nat.succ_le_succ most) enough
  have known : ∀ dev ∈ (devs.filter (Registrable names)).reverse ++ [devNull],
      ∃ devName, names dev = some devName ∧ '\x00' ∉ devName := by
    intro dev inside
    rw [List.mem_append, List.mem_reverse, List.mem_filter, List.mem_singleton] at inside
    have present : names dev ≠ none := by
      rcases inside with ⟨-, registrable⟩ | rfl
      · rw [Registrable, Bool.and_eq_true] at registrable
        exact Option.isSome_iff_ne_none.mp registrable.2
      · exact named
    obtain ⟨devName, name⟩ := Option.ne_none_iff_exists'.mp present
    exact ⟨devName, name, texts dev devName name⟩
  rw [altUpCharBufferOpenDev]
  generalize (altDevRegs names list devs ⟨altDevList list devNull links, errno⟩).2.links = links'
    at ring ⊢
  generalize (devs.filter (Registrable names)).reverse ++ [devNull] = entries at ring length known
  obtain ⟨next, behind, nodes⟩ := exists_node entries list
  obtain ⟨linked, distinct⟩ := ring
  rw [nodes] at linked
  obtain ⟨⟨follows, -⟩, onwards⟩ := List.isChain_cons_cons.mp linked
  rw [follows]
  exact altFindDevLoop_eq nodes (nodes ▸ onwards) (List.nodup_cons.mp distinct).1 known text length

/-- The names when `main` starts: `/dev/null`, the UART and the character buffer. -/
def bootNames (dev : Nat) : Option (List Char) :=
  if dev = 1 then some "/dev/null".toList
  else if dev = 2 then some "/dev/jtag_uart_0".toList
  else if dev = 3 then
    some (altUpCharBufferInit "_avalon_char_buffer_slave".toList
      "/dev/video_character_buffer_with_dma_0_avalon_char_buffer_slave".toList)
  else none

theorem bootNames_charBuffer :
    bootNames 3 = some "/dev/video_character_buffer_with_dma_0".toList := by
  have parts : "/dev/video_character_buffer_with_dma_0_avalon_char_buffer_slave".toList =
      "/dev/video_character_buffer_with_dma_0".toList ++
        "_avalon_char_buffer_slave".toList := by decide
  rw [bootNames, if_neg (by decide), if_neg (by decide), if_pos rfl, parts]
  exact congrArg some (altUpCharBufferInit_append _ (by decide))

theorem bootNames_text {dev : Nat} {devName : List Char} (named : bootNames dev = some devName) :
    '\x00' ∉ devName := by
  by_cases charBuffer : dev = 3
  · rw [charBuffer, bootNames_charBuffer] at named
    rw [← Option.some.inj named]
    decide
  · rw [bootNames, if_neg charBuffer] at named
    split at named
    · rw [← Option.some.inj named]
      decide
    · split at named
      · rw [← Option.some.inj named]
        decide
      · cases named

/-- What `main` opens is there, also if a device without a name has been turned
away. -/
theorem altUpCharBufferOpenDev_boot :
    let (statuses, hal) := altDevRegs bootNames 0 [2, 4, 3] ⟨altDevList 0 1 ⟨id, id⟩, 0⟩
    statuses = [0, -22, 0] ∧ hal.links.Ring 0 [3, 2, 1] ∧
      altUpCharBufferOpenDev hal.links bootNames "/dev/video_character_buffer_with_dma_0".toList
        0 5 = some (some 3) := by
  have fit : [2, 4, 3].filter (Registrable bootNames) = [2, 3] := by decide
  have apart : (0 :: 1 :: [2, 4, 3].filter (Registrable bootNames)).Nodup := by
    rw [fit]
    decide
  obtain ⟨statuses, ring, opened⟩ := altUpCharBufferOpenDev_eq ⟨id, id⟩ 0 apart
    (by decide) (fun _ _ => bootNames_text)
    (show '\x00' ∉ "/dev/video_character_buffer_with_dma_0".toList by decide) (Nat.lt_add_one 4)
  rw [fit] at ring opened
  refine ⟨statuses.trans (by decide), ring, opened.trans ?_⟩
  exact congrArg some (List.find?_cons_of_pos (decide_eq_true bootNames_charBuffer))

end FpgaTrivia.Software
