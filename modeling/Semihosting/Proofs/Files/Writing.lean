import Semihosting.Files.Access
import Semihosting.Proofs.Outcomes

/-!
# Writing files

In a lawful world a file that can be opened is written as a whole, and no other file changes; if it
cannot be opened, nothing changes at all. Main statements: `run_writeFile_of_some` and
`run_writeFile_of_none`. A text that was written is read back as the text
(`decodeText?_encodeText`).
-/
namespace Semihosting.Files

open World

variable {σ : Type} [Access (StateM σ)] [World σ] [LawfulAccess σ]

omit [LawfulAccess σ] in
theorem World.ChangedOnly.trans {before middle after : σ} {file : Access.File (StateM σ)}
    (first : ChangedOnly before middle file) (second : ChangedOnly middle after file) :
    ChangedOnly before after file where
  paths path := (second.paths path).trans (first.paths path)
  others other ne := (second.others other ne).trans (first.others other ne)

theorem run_writeFile_of_none {world : σ} {path : String} (content : Bytes)
    (refused : opens world path = none) :
    (writeFile path content : StateM σ Bool).run world = (false, world) := by
  rw [writeFile, run_bind, LawfulAccess.run_create_of_none refused]
  rfl

/-- A file that can be opened is emptied first, so it ends up with the bytes and nothing else. -/
theorem run_writeFile_of_some {world : σ} {path : String} {file : Access.File (StateM σ)}
    (bytes : Bytes) (granted : opens world path = some file) :
    ∃ after, (writeFile path bytes : StateM σ Bool).run world = (true, after) ∧
      locate world path = some file ∧ content after file = some bytes ∧
      ChangedOnly world after file := by
  obtain ⟨emptied, created, located, empty, kept⟩ := LawfulAccess.run_create_of_some granted
  obtain ⟨after, appended, held, kept'⟩ := LawfulAccess.run_append bytes empty
  refine ⟨after, ?_, located, held, kept.trans kept'⟩
  rw [writeFile, run_bind, created]
  exact appended

/-- Whatever a path still gives when only one file has changed, it gives from that file if it leads
there. -/
theorem content_of_read_after {before after : σ} {file : Access.File (StateM σ)} {path : String}
    {bytes : Bytes} (kept : ChangedOnly before after file) (located : locate before path = some file)
    (found : read after path = some bytes) : content after file = some bytes := by
  obtain ⟨other, leads, held⟩ := LawfulAccess.content_of_read found
  rw [kept.paths, located] at leads
  cases leads
  exact held

theorem decodeText?_encodeText (text : String) : decodeText? (encodeText text) = some text := by
  have same : ByteArray.mk (encodeText text).toArray = text.toUTF8 := by
    rw [encodeText, Array.toArray_toList]
  rw [decodeText?, same, String.fromUTF8?, String.toUTF8_eq_toByteArray, dif_pos text.isValidUTF8]
  rfl

end Semihosting.Files
