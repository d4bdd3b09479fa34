import CommitCheck.Proofs.Backwards
import CommitCheck.Proofs.Lines
import CommitCheck.Source.Direct
import CommitCheck.Source.Log

set_option autoImplicit false

/-! What is read back from the output of the command: the hash and the message of a commit, and the
hashes of several. The message that is read has all the line feeds in front of it that are stored;
the source that reads the repository itself leaves them away. -/

namespace CommitCheck

namespace Text

theorem decodeLenient_append (text : String) (rest : List UInt8) :
    (decodeLenient (encode text ++ rest)).toList = text.toList ++ (decodeLenient rest).toList := by
  have read (cs : List Char) : readings none (cs.flatMap encodeChar ++ rest) =
      cs.map some ++ readings none rest := by
    induction cs with
    | nil => rfl
    | cons c cs ih =>
        rw [List.flatMap_cons, List.append_assoc, readings_encodeChar, ih]
        rfl
  have same (cs : List Char) :
      (cs.map some).map (fun reading : Option Char => reading.getD '\uFFFD') = cs := by
    rw [List.map_map]
    exact List.map_id cs
  unfold decodeLenient encode
  rw [String.toList_ofList, String.toList_ofList, read, List.map_append, same]

theorem decodeLenient_of_decode? {bytes : List UInt8} {text : String}
    (decoded : decode? bytes = some text) : decodeLenient bytes = text := by
  have complete (read : List (Option Char)) (cs : List Char) (all : read.mapM id = some cs) :
      read.map (fun reading => reading.getD '\uFFFD') = cs := by
    induction read generalizing cs with
    | nil =>
        cases all
        rfl
    | cons reading read ih =>
        rw [List.mapM_cons] at all
        obtain ⟨c, first, all⟩ := Option.bind_eq_some_iff.mp all
        obtain ⟨others, rest, all⟩ := Option.bind_eq_some_iff.mp all
        cases all
        rw [List.map_cons, ih others rest]
        subst first
        rfl
  obtain ⟨cs, all, rfl⟩ := Option.map_eq_some_iff.mp decoded
  unfold decodeLenient
  rw [complete _ cs all]

theorem decodeLenient_feeds (bytes : List UInt8) :
    (decodeLenient bytes).toList =
      List.replicate (bytes.takeWhile (· == 0x0A)).length '\n' ++
        (decodeLenient (bytes.dropWhile (· == 0x0A))).toList := by
  induction bytes with
  | nil => rfl
  | cons byte bytes ih =>
      by_cases feed : byte = 0x0A
      · subst feed
        have first := decodeLenient_append "\n" bytes
        change (decodeLenient (0x0A :: bytes)).toList =
          '\n' :: (decodeLenient bytes).toList at first
        rw [first, ih]
        rfl
      · have other : (byte == 0x0A) = false := beq_eq_false_iff_ne.mpr feed
        rw [List.takeWhile_cons, List.dropWhile_cons, other]
        rfl

end Text

namespace Log

theorem readCommit_entry {history : History} {commit : Nat}
    (oneLine : '\n' ∉ (history.sha commit).toList) :
    readCommit (entry history commit) =
      ⟨history.sha commit, Text.decodeLenient (history.message commit)⟩ := by
  have text : (Text.decodeLenient (entry history commit)).toList =
      (history.sha commit).toList ++ ['\n'] ++
        (Text.decodeLenient (history.message commit)).toList := by
    unfold entry
    rw [List.append_assoc, Text.decodeLenient_append]
    have feed := Text.decodeLenient_append "\n" (history.message commit)
    change (Text.decodeLenient (lineFeed ++ history.message commit)).toList = _ at feed
    rw [feed, List.append_assoc]
    rfl
  have first : ¬['\n'] <:+: (history.sha commit).toList ++ ['\n'].dropLast := by
    intro found
    rw [List.dropLast_singleton, List.append_nil] at found
    exact oneLine (found.subset List.mem_cons_self)
  unfold readCommit
  dsimp only
  rw [text, Text.splitOnce?_append (List.cons_ne_nil _ _) first]
  dsimp only
  rw [String.ofList_toList, String.ofList_toList]

private theorem decodeLenient_intercalate (hashes : List String) :
    (Text.decodeLenient (lineFeed.intercalate (hashes.map Text.encode))).toList =
      Text.joinLines (hashes.map String.toList) := by
  induction hashes with
  | nil => rfl
  | cons hash others ih =>
      cases others with
      | nil =>
          have last := Text.decodeLenient_append hash []
          rw [List.append_nil] at last
          simp only [List.map_cons, List.map_nil, List.intercalate_singleton, Text.joinLines]
          rw [last]
          exact List.append_nil _
      | cons next others =>
          have feed := Text.decodeLenient_append "\n"
            (lineFeed.intercalate ((next :: others).map Text.encode))
          change (Text.decodeLenient (lineFeed ++ _)).toList = _ at feed
          have printed : lineFeed.intercalate ((hash :: next :: others).map Text.encode) =
              Text.encode hash ++
                (lineFeed ++ lineFeed.intercalate ((next :: others).map Text.encode)) := by
            simp
          have joined : Text.joinLines ((hash :: next :: others).map String.toList) =
              hash.toList ++
                ("\n".toList ++ Text.joinLines ((next :: others).map String.toList)) := by
            simp [Text.joinLines]
          rw [printed, Text.decodeLenient_append, feed, ih, joined]

theorem readHashes_printed {hashes : List String}
    (oneLine : ∀ hash ∈ hashes, '\n' ∉ hash.toList) (given : ∀ hash ∈ hashes, hash ≠ "") :
    readHashes (lineFeed.intercalate (hashes.map Text.encode)) = hashes := by
  cases hashes with
  | nil => rfl
  | cons first others =>
      have whole : ∀ line ∈ (first :: others).map String.toList, '\n' ∉ line := by
        rw [List.forall_mem_map]
        exact oneLine
      have kept : ((first :: others).map String.toList).filter (fun line => !line.isEmpty) =
          (first :: others).map String.toList := by
        rw [List.filter_eq_self, List.forall_mem_map]
        intro hash member
        rw [Bool.not_eq_true', List.isEmpty_eq_false_iff]
        intro nothing
        exact given hash member (String.toList_eq_nil_iff.mp nothing)
      have nonempty : (first :: others).map String.toList ≠ [] := List.cons_ne_nil _ _
      have back (hashes : List String) :
          (hashes.map String.toList).map String.ofList = hashes := by
        simp
      unfold readHashes
      rw [decodeLenient_intercalate, Text.splitLines_joinLines nonempty whole, kept,
        back]

end Log

namespace Repository

/-- The message that the source reads that reads the repository itself, and the one that is stored,
differ by the line feeds in front. -/
theorem decodeLenient_of_messageText? {stored : List UInt8} {message : String}
    (read : messageText? stored = some message) :
    (Text.decodeLenient stored).toList =
      List.replicate (stored.takeWhile (· == 0x0A)).length '\n' ++ message.toList := by
  rw [Text.decodeLenient_feeds, Text.decodeLenient_of_decode? read]

theorem eq_messageText?_iff {stored : List UInt8} {message : String}
    (read : messageText? stored = some message) :
    Text.decodeLenient stored = message ↔ stored.head? ≠ some 0x0A := by
  have text := decodeLenient_of_messageText? read
  rw [← String.toList_inj, text]
  cases stored with
  | nil => simp
  | cons byte stored =>
      by_cases feed : byte = 0x0A
      · subst feed
        simp
      · simp [feed]

end Repository

end CommitCheck
