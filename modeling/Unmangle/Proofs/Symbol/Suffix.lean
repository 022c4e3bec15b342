import Mathlib.Data.List.TakeWhile
import Unmangle.Proofs.Extension.Number
import Unmangle.Proofs.Symbol.Marker

/-!
# Reading what stands behind an encoding

The suffix of a clone is taken as it stands, and the number and the suffix of a block are
moved over. Either way one node is put around the encoding, and nothing is left.
-/
namespace Unmangle

namespace Parse

variable {call : Calls} {s t u : ParseState} {id root : NodeId}

/-- A bare name is an encoding only if its linkage is internal. -/
def Admits (s : ParseState) (node : Node) : Prop :=
  ∀ words, node = .name words → s.cursor.peekAt 0 = 'L'

/-- Behind an encoding comes the suffix of a clone, or nothing. -/
theorem run_markedEncoding (admits : Admits s (t.work.tree.node id))
    (run : (call .encoding).run s = .ok id t) :
    (markedEncoding call).run s =
      (do
        if (← peek) == '.' then
          let suffix ← remainder
          make (.clone id suffix)
        else
          return id : Parse NodeId).run t := by
  have look : peek.run s = .ok (s.cursor.peekAt 0) s := rfl
  have opened : (node id).run t = .ok (t.work.tree.node id) t := rfl
  unfold markedEncoding
  rw [run_bind_ok _ look, run_bind_ok _ run, run_bind_ok _ opened]
  cases held : t.work.tree.node id with
  | name words =>
    rw [admits words held]
    rfl
  | _ => rfl

/-- What was parsed behind a marker is an encoding that may stand there. -/
theorem admits_of_run (run : (markedEncoding call).run s = .ok root u) :
    ∃ id t, (call .encoding).run s = .ok id t ∧ Admits s (t.work.tree.node id) := by
  have look : peek.run s = .ok (s.cursor.peekAt 0) s := rfl
  unfold markedEncoding at run
  rw [run_bind_ok _ look] at run
  cases read : (call .encoding).run s with
  | error fault t =>
    rw [run_bind_error _ read] at run
    cases run
  | ok id t =>
    have opened : (node id).run t = .ok (t.work.tree.node id) t := rfl
    refine ⟨id, t, rfl, ?_⟩
    intro words held
    rw [run_bind_ok _ read, run_bind_ok _ opened, held] at run
    by_cases internal : s.cursor.peekAt 0 = 'L'
    · exact internal
    · rw [beq_false_of_ne internal] at run
      cases run

/-- A symbol ends where nothing is left and no parameter waits. -/
theorem run_finish (whole : t.cursor.rest = []) (settled : t.work.forward.isEmpty = true) :
    (finish id).run t = .ok id t := by
  have ended : atEnd.run t = .ok true t := by
    show EStateM.Result.ok t.cursor.rest.isEmpty t = _
    rw [whole]
    rfl
  unfold finish
  rw [run_bind_ok _ ended, ensure_true, run_bind_ok _ (run_pure ()), run_bind_ok _ run_get,
    settled, ensure_true, run_bind_ok _ (run_pure ())]
  rfl

theorem of_run_finish (run : (finish id).run t = .ok root u) :
    root = id ∧ u = t ∧ t.cursor.rest = [] ∧ t.work.forward.isEmpty = true := by
  have ended : atEnd.run t = .ok t.cursor.rest.isEmpty t := rfl
  unfold finish at run
  rw [run_bind_ok _ ended] at run
  cases whole : t.cursor.rest.isEmpty with
  | false =>
    rw [whole] at run
    cases run
  | true =>
    rw [whole, ensure_true, run_bind_ok _ (run_pure ()), run_bind_ok _ run_get] at run
    cases settled : t.work.forward.isEmpty with
    | false =>
      rw [settled] at run
      cases run
    | true =>
      rw [settled, ensure_true] at run
      cases run
      exact ⟨rfl, rfl, List.isEmpty_iff.mp whole, rfl⟩

theorem peekAt_ne_dot {cursor : Cursor} (dotless : 46 ∉ cursor.rest) : cursor.peekAt 0 ≠ '.' := by
  intro dot
  obtain ⟨offset, _ | ⟨byte, more⟩⟩ := cursor
  · cases dot
  · have same : byte.toNat = 46 := by
      rw [← toNat_ofNat byte]
      exact congrArg Char.toNat dot
    obtain rfl : byte = 46 := UInt8.toNat_inj.mp same
    exact dotless (.head _)

/-- Behind an encoding with no dot behind it, nothing is left of a whole symbol. -/
theorem encoding_of_run (run : (markedEncoding call >>= finish).run s = .ok root u)
    (dotless : ∀ id t, (call .encoding).run s = .ok id t → 46 ∉ t.cursor.rest) :
    (call .encoding).run s = .ok root u ∧ Admits s (u.work.tree.node root) ∧
      u.cursor.rest = [] ∧ u.work.forward.isEmpty = true := by
  cases read : (markedEncoding call).run s with
  | error fault t =>
    rw [run_bind_error _ read] at run
    cases run
  | ok id t =>
    obtain ⟨first, before, encoded, admits⟩ := admits_of_run read
    rw [run_bind_ok _ read] at run
    rw [run_markedEncoding admits encoded, run_bind_ok _ (show peek.run before =
      .ok (before.cursor.peekAt 0) before from rfl)] at read
    rw [beq_false_of_ne (peekAt_ne_dot (dotless first before encoded))] at read
    obtain ⟨rfl, rfl⟩ : first = id ∧ before = t := EStateM.Result.ok.inj read
    obtain ⟨rfl, rfl, whole, settled⟩ := of_run_finish run
    exact ⟨encoded, admits, whole, settled⟩

theorem run_peek_dot {more : List UInt8} (dot : t.cursor.rest = 46 :: more) :
    peek.run t = .ok '.' t := by
  show EStateM.Result.ok (t.cursor.peekAt 0) t = _
  unfold Cursor.peekAt
  rw [dot]
  rfl

/-- All that is left is one text. -/
theorem run_remainder :
    remainder.run t = .ok (.span t.cursor.offset t.cursor.stop)
      { t with cursor := ⟨t.cursor.stop, []⟩ } := by
  have all : t.cursor.rest.takeWhile (fun _ => true) = t.cursor.rest :=
    List.takeWhile_eq_self_iff.mpr fun _ _ => rfl
  have none : t.cursor.rest.dropWhile (fun _ => true) = [] :=
    List.dropWhile_eq_nil_iff.mpr fun _ _ => rfl
  simp only [remainder, step, Cursor.spanWhile, all, none, Cursor.stop]

theorem run_make (node : Node) :
    (make node).run t = .ok (t.work.tree.alloc node).1
      { t with work := { t.work with tree := (t.work.tree.alloc node).2 } } :=
  rfl

/-- The remainder becomes the suffix of a clone. -/
theorem run_clone {more : List UInt8} (admits : Admits s (t.work.tree.node id))
    (run : (call .encoding).run s = .ok id t) (dot : t.cursor.rest = 46 :: more)
    (settled : t.work.forward.isEmpty = true) :
    ∃ u, (markedEncoding call >>= finish).run s =
        .ok (t.work.tree.alloc (.clone id (.span t.cursor.offset t.cursor.stop))).1 u ∧
      u.work.tree = (t.work.tree.alloc (.clone id (.span t.cursor.offset t.cursor.stop))).2 := by
  have read := run_markedEncoding admits run
  rw [run_bind_ok _ (run_peek_dot dot), beq_self_eq_true, if_pos rfl,
    run_bind_ok _ run_remainder, run_make] at read
  rw [run_bind_ok _ read]
  exact ⟨_, run_finish rfl settled, rfl⟩

/-- The number of a block is decimal and may stand behind an underscore. -/
def BlockNumber (bytes : List UInt8) : Prop :=
  bytes.all Number.isDigit = true ∨
    ∃ digits, digits ≠ [] ∧ digits.all Number.isDigit = true ∧ bytes = 95 :: digits

/-- Nothing follows, or a dot does. -/
def Dotted (rest : List UInt8) : Prop :=
  rest = [] ∨ ∃ more, rest = 46 :: more

theorem Dotted.unbarred {rest : List UInt8} (h : Dotted rest) : ¬rest.head? = some 95 := by
  obtain rfl | ⟨more, rfl⟩ := h
  · nofun
  · nofun

theorem run_number_of_digits {digits rest : List UInt8} (bytes : t.cursor.rest = digits ++ rest)
    (all : digits.all Number.isDigit = true) (dotted : Dotted rest) :
    ∃ text, (number false).run t =
        .ok text { t with cursor := ⟨t.cursor.offset + digits.length, rest⟩ } ∧
      text.isEmpty = digits.isEmpty := by
  -- neither the end nor a dot is one more digit
  have taken : t.cursor.rest.takeWhile Number.isDigit = digits := by
    rw [bytes, List.takeWhile_append_of_pos (List.all_eq_true.mp all)]
    obtain rfl | ⟨more, rfl⟩ := dotted
    · simp
    · rw [List.takeWhile_cons_of_neg (by decide), List.append_nil]
  by_cases none : digits = []
  · obtain rfl := none
    refine ⟨.empty, ?_, rfl⟩
    rw [run_number_nil taken]
    obtain ⟨⟨offset, left⟩, level, work, facts, args, ahead, lambda⟩ := t
    obtain rfl : left = rest := bytes
    rfl
  · have some : t.cursor.rest.takeWhile Number.isDigit ≠ [] := by rwa [taken]
    have moved : t.cursor.skip digits.length = ⟨t.cursor.offset + digits.length, rest⟩ := by
      rw [Cursor.skip, bytes, List.drop_left]
    rw [run_number_ne_nil some, taken, moved]
    refine ⟨_, rfl, ?_⟩
    cases digits with
    | nil => exact absurd rfl none
    | cons digit digits => simp [Text.isEmpty]

theorem run_expect {token : String} {rest : List UInt8}
    (ascii : (token.toList.all fun char => char.toNat < 256) = true)
    (spelled : octets token = token.toList.map fun char => UInt8.ofNat char.toNat)
    (bytes : t.cursor.rest = octets token ++ rest) :
    ∃ offset, (expect token).run t = .ok () { t with cursor := ⟨offset, rest⟩ } := by
  rw [spelled] at bytes
  have bytewise : ∀ char ∈ token.toList, char.toNat < 256 := by simpa using ascii
  have found := Cursor.strip?_of_append bytewise bytes
  have accepted : (accept token).run t =
      .ok true { t with cursor := ⟨t.cursor.offset + token.toList.length, rest⟩ } := by
    simp only [accept, step, found]
  exact ⟨_, run_bind_ok _ accepted⟩

/-- The number of a block is passed over. -/
theorem run_blockNumber {β : Type} {numeral rest : List UInt8} (numbered : BlockNumber numeral)
    (dotted : Dotted rest) (bytes : t.cursor.rest = numeral ++ rest) (f : Unit → Parse β) :
    ∃ offset, (do
      let numbered ← accept "_"
      let number ← number false
      ensure (!(number.isEmpty && numbered)) unexpected >>= f : Parse β).run t =
        (f ()).run { t with cursor := ⟨offset, rest⟩ } := by
  obtain all | ⟨digits, some, all, rfl⟩ := numbered
  · have plain : ¬t.cursor.rest.head? = some 95 := by
      rw [bytes]
      cases numeral with
      | nil => exact dotted.unbarred
      | cons digit digits =>
        rintro ⟨⟩
        cases all
    have rejected := (run_acceptBar t).trans (if_neg plain)
    obtain ⟨text, run, -⟩ := run_number_of_digits bytes all dotted
    rw [run_bind_ok _ rejected, run_bind_ok _ run, Bool.and_false]
    exact ⟨_, rfl⟩
  · have bar : t.cursor.rest.head? = Option.some 95 := by
      rw [bytes]
      rfl
    have accepted := (run_acceptBar t).trans (if_pos bar)
    have behind : (t.cursor.skip 1).rest = digits ++ rest := by
      rw [Cursor.skip, bytes]
      rfl
    obtain ⟨text, run, empty⟩ :=
      run_number_of_digits (t := { t with cursor := t.cursor.skip 1 }) behind all dotted
    have shown : digits.isEmpty = false := by simpa using some
    rw [run_bind_ok _ accepted, run_bind_ok _ run, empty, shown]
    exact ⟨_, rfl⟩

/-- What comes behind the number of a block is passed over. -/
theorem run_blockSuffix {β : Type} (dotted : Dotted t.cursor.rest) (f : Unit → Parse β) :
    ∃ offset, (do
      (if (← peek) == '.' then discard remainder else pure ())
      f () : Parse β).run t = (f ()).run { t with cursor := ⟨offset, []⟩ } := by
  obtain none | ⟨more, dot⟩ := dotted
  · obtain ⟨⟨offset, rest⟩, level, work, facts, args, ahead, lambda⟩ := t
    obtain rfl : rest = [] := none
    exact ⟨offset, rfl⟩
  · have moved : (discard remainder : Parse Unit).run t =
        .ok () { t with cursor := ⟨t.cursor.stop, []⟩ } :=
      run_bind_ok (fun _ => pure ()) run_remainder
    rw [run_bind_ok _ (run_peek_dot dot), beq_self_eq_true, if_pos rfl, run_bind_ok _ moved]
    exact ⟨_, rfl⟩

/-- The number and the suffix of a block are moved over. -/
theorem run_block {numeral rest : List UInt8} (run : (call .encoding).run s = .ok id t)
    (bytes : t.cursor.rest = octets "_block_invoke" ++ (numeral ++ rest))
    (numbered : BlockNumber numeral) (dotted : Dotted rest)
    (settled : t.work.forward.isEmpty = true) :
    ∃ u, (blockInvocation call >>= finish).run s =
        .ok (t.work.tree.alloc (.special "invocation function for block in " id)).1 u ∧
      u.work.tree =
        (t.work.tree.alloc (.special "invocation function for block in " id)).2 := by
  obtain ⟨start, expected⟩ := run_expect (by decide) (by decide) bytes
  obtain ⟨middle, moved⟩ := run_blockNumber
    (t := { t with cursor := ⟨start, numeral ++ rest⟩ }) numbered dotted rfl fun _ => do
      (if (← peek) == '.' then discard remainder else pure ())
      make (.special "invocation function for block in " id)
  obtain ⟨stop, moved'⟩ := run_blockSuffix (t := { t with cursor := ⟨middle, rest⟩ }) dotted
    fun _ => make (.special "invocation function for block in " id)
  have read : (blockInvocation call).run s =
      (make (.special "invocation function for block in " id)).run
        { t with cursor := ⟨stop, []⟩ } := by
    unfold blockInvocation
    rw [run_bind_ok _ run, run_bind_ok _ expected]
    exact moved.trans moved'
  rw [run_make] at read
  rw [run_bind_ok _ read]
  exact ⟨_, run_finish rfl settled, rfl⟩

end Parse

namespace Symbol

/-- The number of a block, or none. It may stand behind an underscore. -/
def IsBlockNumber (number : String) : Prop :=
  number.toList.all Char.isDigit = true ∨
    ∃ digits : String, digits ≠ "" ∧ digits.toList.all Char.isDigit = true ∧ number = "_" ++ digits

/-- A dot with anything behind it, or nothing. -/
def IsBlockSuffix (suffix : String) : Prop :=
  suffix = "" ∨ ∃ behind, suffix = "." ++ behind

theorem all_isDigit_octets {words : String} (all : words.toList.all Char.isDigit = true) :
    (octets words).all Number.isDigit = true := by
  rw [octets_eq_flatMap, List.all_flatMap]
  apply List.all_eq_true.mpr
  intro char inside
  have digit := List.all_eq_true.mp all char inside
  rcases utf8EncodeChar_cases char with ⟨small, single⟩ | ⟨large, -, -⟩
  · have byte : (UInt8.ofNat char.toNat).toNat = char.toNat := by
      rw [UInt8.toNat_ofNat']
      omega
    rw [single, List.all_cons, List.all_nil, Bool.and_true, ← isDigit_ofNat, byte,
      Char.ofNat_toNat]
    exact digit
  · have most : char.toNat ≤ 57 := by
      simp only [Char.isDigit, Bool.and_eq_true, decide_eq_true_eq] at digit
      exact digit.2
    omega

theorem IsBlockNumber.numbered {number : String} (h : IsBlockNumber number) :
    Parse.BlockNumber (octets number) := by
  obtain all | ⟨digits, some, all, rfl⟩ := h
  · exact .inl (all_isDigit_octets all)
  · have filled : octets digits ≠ [] := by
      intro none
      have size := length_octets digits
      rw [none] at size
      exact some (String.utf8ByteSize_eq_zero_iff.mp size.symm)
    exact .inr ⟨octets digits, filled, all_isDigit_octets all, octets_append "_" digits⟩

theorem IsBlockSuffix.dotted {suffix : String} (h : IsBlockSuffix suffix) :
    Parse.Dotted (octets suffix) := by
  obtain rfl | ⟨behind, rfl⟩ := h
  · exact .inl rfl
  · exact .inr ⟨octets behind, octets_append "." behind⟩

end Symbol

end Unmangle
