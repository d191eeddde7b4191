import OtaAgent.Digest
import OtaAgent.Proofs.Text.Base64

set_option autoImplicit false

namespace OtaAgent

theorem Text.trimChars_of_unblank {cs : List Char} (unblank : ∀ c ∈ cs, isBlank c = false) :
    trimChars cs = cs := by
  have keeps {ds : List Char} (unblank : ∀ c ∈ ds, isBlank c = false) :
      ds.dropWhile isBlank = ds := by
    cases ds with
    | nil => rfl
    | cons d ds => rw [List.dropWhile_cons_of_neg (by simp [unblank d List.mem_cons_self])]
  rw [trimChars, keeps unblank, keeps fun c among => unblank c (List.mem_reverse.mp among),
    List.reverse_reverse]

namespace Digest

theorem ofBytes?_bytes (d : Digest) : ofBytes? d.bytes = some d := by
  rw [ofBytes?, dif_pos d.size]

theorem parse?_text (d : Digest) : parse? d.text = some d := by
  have chars : d.text.toList = Text.Base64.encodeChars d.bytes := String.toList_ofList
  simp only [parse?, chars, Text.trimChars_of_unblank (Text.Base64.isBlank_encodeChars d.bytes),
    Text.Base64.decodeChars?_encodeChars, Option.bind_some, ofBytes?_bytes]

end Digest
end OtaAgent
