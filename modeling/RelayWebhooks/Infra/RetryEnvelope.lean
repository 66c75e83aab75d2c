import RelayWebhooks.Py.JsonLoads
import RelayWebhooks.Infra.RetrySchedule

/-! The texts of the retry ZSET's members, and what the scheduler reads in them. -/
namespace RelayWebhooks
open LoadedJson

/-- The member `schedule_retry` adds. -/
def scheduledMember (deliveryId : UUID) (correlationId : Option PyText) : PyText :=
  (Json.obj
    [ (.ofString "delivery_id", .str (uuidText deliveryId)),
      (.ofString "correlation_id", Json.orNull .str correlationId) ]).dumps

/-- A `DueRetry` as it is read: nothing checks that the correlation id is a string. -/
structure ReadRetry where
  deliveryId : UUID
  correlationId : LoadedJson

def DueRetry.read (d : DueRetry) : ReadRetry := ⟨d.deliveryId, orNull d.correlationId⟩

/-- `_parse_member` of a text, `none` if it raises. -/
def parseMemberText (asciiOf : ℕ → ℕ) (member : PyText) : Option ReadRetry :=
  match loads member with
  | none => (uuidOfText asciiOf member).map fun u => ⟨u, .null⟩
  | some (.obj payload) =>
    match getMember payload (.ofString "delivery_id") with
    | some (.str t) =>
      (uuidOfText asciiOf t).map fun u =>
        ⟨u, (getMember payload (.ofString "correlation_id")).getD .null⟩
    | _ => none
  | some _ => none

/-- The envelope from the name of the correlation id on, and from the name of the delivery id on. -/
def correlationPart (correlationId : Option PyText) : PyText :=
  Json.quote (.ofString "correlation_id") ++ [0x3a, 0x20] ++
    ((Json.orNull .str correlationId).dumps ++ [0x7d])

def deliveryPart (deliveryId : UUID) (correlationId : Option PyText) : PyText :=
  Json.quote (.ofString "delivery_id") ++ [0x3a, 0x20] ++
    (Json.quote (uuidText deliveryId) ++ (Json.commaSep ++ correlationPart correlationId))

theorem scheduledMember_eq (u : UUID) (c : Option PyText) :
    scheduledMember u c = 0x7b :: deliveryPart u c := by
  simp [scheduledMember, Json.dumps, Json.dumpsMembers, deliveryPart, correlationPart]

theorem uuidText_lt (u : UUID) : ∀ x ∈ uuidText u, x < 0x7f := fun x hx =>
  (uuidText_printable u x hx).2

theorem joinPairs_uuidText (u : UUID) : joinPairs (uuidText u) = uuidText u := by
  apply joinPairs_of_not_high
  intro x hx hhigh
  have := uuidText_lt u x hx
  unfold HighSurrogate at hhigh
  omega

section
variable {c : Option PyText} (hrange : ∀ t ∈ c, ∀ x ∈ t, x < 0x110000)
include hrange

theorem scanOnce_orNull (n : ℕ) (rest : PyText) :
    scanOnce (n + 1) ((Json.orNull .str c).dumps ++ rest) =
      some (orNull (c.map joinPairs), rest) := by
  cases c with
  | none => rfl
  | some t => exact scanOnce_quote (hrange t rfl) n rest

theorem scanMembers_correlationPart (n : ℕ) :
    scanMembers (n + 2) (correlationPart c) =
      some ([(.ofString "correlation_id", orNull (c.map joinPairs))], []) := by
  have hspace : skipSpace ((Json.orNull .str c).dumps ++ [0x7d]) =
      (Json.orNull .str c).dumps ++ [0x7d] := by
    cases c <;> rfl
  exact scanMembers_last (by decide) hspace (scanOnce_orNull hrange n [0x7d])

theorem scanMembers_deliveryPart (n : ℕ) (u : UUID) :
    scanMembers (n + 3) (deliveryPart u c) =
      some ([(.ofString "delivery_id", .str (uuidText u)),
        (.ofString "correlation_id", orNull (c.map joinPairs))], []) := by
  have hids : ∀ x ∈ uuidText u, x < 0x110000 := fun x hx => (uuidText_lt u x hx).trans (by decide)
  have hid := scanOnce_quote hids (n + 1) (Json.commaSep ++ correlationPart c)
  rw [joinPairs_uuidText] at hid
  exact scanMembers_more (by decide) rfl hid rfl (scanMembers_correlationPart hrange n)

/-- The envelope is read as it was written, with split surrogate pairs joined. -/
theorem loads_scheduledMember (u : UUID) :
    loads (scheduledMember u c) = some (.obj
      [ (.ofString "delivery_id", .str (uuidText u)),
        (.ofString "correlation_id", orNull (c.map joinPairs)) ]) := by
  obtain ⟨n, hn⟩ : ∃ n, (0x7b :: deliveryPart u c).length = n + 3 := by
    have hlong : 3 ≤ (0x7b :: deliveryPart u c).length := by
      simp [deliveryPart, Json.quote]
      omega
    exact ⟨_, (Nat.sub_add_cancel hlong).symm⟩
  have hmark : (0x7b :: deliveryPart u c).head? ≠ some 0xfeff := by simp
  have hskip : skipSpace (0x7b :: deliveryPart u c) = 0x7b :: deliveryPart u c := rfl
  have hscan := scanOnce_obj rfl (by simp [deliveryPart, Json.quote])
    (scanMembers_deliveryPart hrange n u)
  rw [scheduledMember_eq, loads, if_neg hmark, hskip, hn, hscan]
  rfl

theorem parseMemberText_scheduledMember (asciiOf : ℕ → ℕ) (u : UUID) :
    parseMemberText asciiOf (scheduledMember u c) = some ⟨u, orNull (c.map joinPairs)⟩ := by
  unfold parseMemberText
  rw [loads_scheduledMember hrange]
  show (uuidOfText asciiOf (uuidText u)).map _ = _
  rw [uuidOfText_uuidText]
  rfl

/-- The member decodes to what was scheduled for exactly the strings that `json.dumps` and
`json.loads` keep. -/
theorem parseMemberText_scheduledMember_iff (asciiOf : ℕ → ℕ) (u : UUID) :
    parseMemberText asciiOf (scheduledMember u c) = some (DueRetry.read ⟨u, c⟩) ↔
      ∀ t ∈ c, loads (Json.dumps (.str t)) = some (.str t) := by
  rw [parseMemberText_scheduledMember hrange]
  cases c with
  | none => simp [DueRetry.read]
  | some t => simp [DueRetry.read, orNull, loads_dumps_str (hrange t rfl)]

end

section
variable (u : UUID)

theorem count_uuidText : (uuidText u).count 0x2d = 4 := by
  have hnone : ∀ t : PyText, (∀ c ∈ t, c ∈ hexText 32 u.toNat) → t.count 0x2d = 0 := by
    intro t ht
    rw [List.count_eq_zero]
    intro hmem
    have := mem_hexText (ht _ hmem)
    omega
  have htake : ∀ i n, (((hexText 32 u.toNat).drop i).take n).count 0x2d = 0 := fun i n =>
    hnone _ fun c hc => List.mem_of_mem_drop (List.mem_of_mem_take hc)
  have hfirst : ((hexText 32 u.toNat).take 8).count 0x2d = 0 := htake 0 8
  have hlast : ((hexText 32 u.toNat).drop 20).count 0x2d = 0 :=
    hnone _ fun c hc => List.mem_of_mem_drop hc
  simp [uuidText, List.count_append, hfirst, htake, hlast]

theorem uuidText_head : ∃ c t, uuidText u = c :: t ∧ c ∈ hexText 32 u.toNat := by
  have hlength : (hexText 32 u.toNat).length = 32 := by simp [hexText]
  obtain ⟨c, t, ht⟩ := List.exists_cons_of_length_eq_add_one hlength
  obtain ⟨rest, hrest⟩ : ∃ rest, uuidText u = (hexText 32 u.toNat).take 8 ++ rest :=
    ⟨_, by simp only [uuidText, List.append_assoc]; rfl⟩
  refine ⟨c, t.take 7 ++ rest, ?_, ?_⟩
  · rw [hrest, ht]
    rfl
  · rw [ht]
    exact List.mem_cons_self

/-- No UUID text is JSON: its first character starts no other value than a number, and a number
has fewer hyphens. -/
theorem loads_uuidText : loads (uuidText u) = none := by
  have hmem := @mem_uuidText u
  have hcount := count_uuidText u
  obtain ⟨c, t, ht, hc⟩ := uuidText_head u
  have hdigit := mem_hexText hc
  rw [ht] at hmem hcount ⊢
  apply loads_eq_none
  · omega
  · intro d hd
    have := hmem hd
    simp only [isSpace, Bool.or_eq_false_iff, decide_eq_false_iff_not]
    omega
  · intro w hw
    have hletter : ∃ d ∈ w.1, ¬(d = 0x2d ∨ (0x30 ≤ d ∧ d ≤ 0x39) ∨ (0x61 ≤ d ∧ d ≤ 0x66)) := by
      revert w
      decide
    obtain ⟨d, hd, hnot⟩ := hletter
    exact ⟨d, hd, fun h => hnot (hmem h)⟩
  · omega

theorem parseMemberText_uuidText (asciiOf : ℕ → ℕ) :
    parseMemberText asciiOf (uuidText u) = some (DueRetry.read ⟨u, none⟩) := by
  unfold parseMemberText
  rw [loads_uuidText, uuidOfText_uuidText]
  rfl

end

/-- The text of a member. -/
def RetryMember.text : RetryMember → PyText
  | .envelope deliveryId correlationId => scheduledMember deliveryId correlationId
  | .bare deliveryId => uuidText deliveryId
  | .other text _ => text

/-- Both formats decode: the envelope of any id and exactly the strings that `json.loads` gets back
from `json.dumps`, which are those without a split surrogate pair, and every bare id, which never
is JSON. -/
theorem retry_member_decodes (asciiOf : ℕ → ℕ) (u : UUID) (c : Option PyText)
    (hrange : ∀ t ∈ c, ∀ x ∈ t, x < 0x110000) :
    (parseMemberText asciiOf (RetryMember.envelope u c).text =
        (parseMember (.envelope u c)).map DueRetry.read ↔
      ∀ t ∈ c, loads (Json.dumps (.str t)) = some (.str t)) ∧
    (∀ t ∈ c, loads (Json.dumps (.str t)) = some (.str t) ↔ Unpaired t) ∧
    loads (uuidText u) = none ∧
    parseMemberText asciiOf (RetryMember.bare u).text = (parseMember (.bare u)).map DueRetry.read := by
  refine ⟨parseMemberText_scheduledMember_iff hrange asciiOf u, ?_, loads_uuidText u,
    parseMemberText_uuidText u asciiOf⟩
  intro t ht
  exact loads_dumps_str_iff (hrange t ht)

/-- A correlation id with a quote, a backslash, a control character, an accent and an emoji, and
ids that begin like numbers with an exponent. -/
theorem retry_member_decodes_sample :
    parseMemberText (fun _ => 0x3f)
        (RetryMember.envelope 0x1e500000000000000000000000000000
          (some [0x22, 0x5c, 0x07, 0xe9, 0x1f600])).text =
      some (DueRetry.read ⟨0x1e500000000000000000000000000000,
        some [0x22, 0x5c, 0x07, 0xe9, 0x1f600]⟩) ∧
    loads (uuidText 0x1e500000000000000000000000000000) = none := by
  obtain ⟨henvelope, hinverse, hbare, -⟩ := retry_member_decodes (fun _ => 0x3f)
    0x1e500000000000000000000000000000 (some [0x22, 0x5c, 0x07, 0xe9, 0x1f600]) (by simp)
  refine ⟨henvelope.mpr ?_, hbare⟩
  intro t ht
  rw [hinverse t ht]
  obtain rfl := Option.some.inj ht
  decide

end RelayWebhooks
