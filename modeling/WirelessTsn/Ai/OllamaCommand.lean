import WirelessTsn.Lib.Shell

/-!
The command line of `call_ollama` (`rpi-ai/llm_bridge.c`). The message of a
chat is printed between the two apostrophes of the argument of `-d`, as it is.
-/

namespace Htsn.Ai

open CText Shell

/-- `OLLAMA_URL` and `OLLAMA_MODEL` -/
def ollamaUrl : CStr := "http://127.0.0.1:11434/api/chat".toList
def ollamaModel : CStr := "qwen2.5:1.5b".toList

/-- The format around the message: up to the first apostrophe, from there to
the message, from there to the second one, and the end. -/
def commandHead : CStr := "curl -s --max-time 60 ".toList ++ ollamaUrl ++ " -d ".toList

def bodyHead : CStr :=
  "\x7b\"model\":\"".toList ++ ollamaModel ++ "\",\"messages\":".toList ++
    "[\x7b\"role\":\"user\",\"content\":\"You are an H-TSN controller assistant. ".toList ++
    "Respond ONLY with strict JSON: \x7b\\\"action\\\":\\\"<name>\\\",\\\"device_id\\\":".toList ++
    "\\\"<id>\\\",\\\"params\\\":\x7b...\x7d\x7d or \x7b\\\"guide\\\":\\\"<text>\\\"\x7d. ".toList ++
    "Allowed actions: save_qos, save_vlan, save_tas, save_stream, deploy_stream, ".toList ++
    "ping_device, exec_all, reboot_device. User: ".toList

def bodyTail : CStr := "\"\x7d],\"stream\":false\x7d".toList

def commandTail : CStr := " 2>/dev/null".toList

/-- The argument of `-d`. -/
def ollamaBody (message : CStr) : CStr := bodyHead ++ message ++ bodyTail

/-- What `call_ollama` hands to `popen`: `char cmd[4096]`. -/
def ollamaCommand (message : CStr) : CStr :=
  (commandHead ++ quote :: (ollamaBody message ++ quote :: commandTail)).take 4095

/-- The words in front of the argument of `-d`, and the redirection behind it. -/
def headTokens : List Token :=
  [.word "curl".toList, .word "-s".toList, .word "--max-time".toList, .word "60".toList, .word ollamaUrl,
    .word "-d".toList]

def tailTokens : List Token := [.ioNumber "2".toList, .oper ">".toList, .word "/dev/null".toList]

/-- What the format means. -/
def ollamaTokens (message : CStr) : List Token :=
  headTokens ++ [.word (ollamaBody message)] ++ tailTokens

variable {message : CStr}

/-- The text in front of the message has no apostrophe, and it is short. -/
theorem bodyHead_facts : countQuotes bodyHead = 0 ∧ bodyHead.length ≤ 1000 := by decide +kernel

theorem quote_notMem_bodyHead : quote ∉ bodyHead := List.count_eq_zero.mp bodyHead_facts.1

/-- The other texts are short too. -/
theorem around_lengths : commandHead.length ≤ 100 ∧ bodyTail.length ≤ 100 ∧ commandTail.length ≤ 100 := by
  decide +kernel

/-- What is behind the message has no apostrophe and ends in the brace that
closes the body, and the words around the body have none either. -/
theorem around_quotes :
    countQuotes bodyTail = 0 ∧ bodyTail = bodyTail.dropLast ++ ['\x7d'] ∧ tokenQuotes headTokens = 0 ∧
      tokenQuotes tailTokens = 0 := by
  decide +kernel

theorem quote_notMem_bodyTail : quote ∉ bodyTail := List.count_eq_zero.mp around_quotes.1

/-- A message that fits its buffer fits the command. -/
theorem ollamaCommand_eq (h : message.length ≤ 1023) :
    ollamaCommand message = commandHead ++ quote :: (ollamaBody message ++ quote :: commandTail) := by
  obtain ⟨hhead, htail, hend⟩ := around_lengths
  have hbody := bodyHead_facts.2
  apply List.take_of_length_le
  simp only [ollamaBody, List.length_append, List.length_cons]
  omega

/-! ### The line in the shell -/

theorem run_head : Lexer.run { } (commandHead ++ [quote]) = some ⟨headTokens, [], some ⟨[], true⟩, .single⟩ := by
  decide +kernel

/-- From the first apostrophe on. -/
theorem tokens_ollama (h : message.length ≤ 1023) :
    tokens (ollamaCommand message) =
      ((Lexer.mk headTokens [] (some ⟨[], true⟩) .single).run (ollamaBody message ++ quote :: commandTail)).bind
        Lexer.close := by
  have hsplit : commandHead ++ quote :: (ollamaBody message ++ quote :: commandTail) =
      (commandHead ++ [quote]) ++ (ollamaBody message ++ quote :: commandTail) := by simp
  rw [ollamaCommand_eq h, tokens, hsplit, Lexer.run_append, run_head, Option.bind_some]
  cases Lexer.run _ (ollamaBody message ++ quote :: commandTail) with
  | none => rfl
  | some s => rfl

/-- Text without an apostrophe, and the apostrophe behind it. -/
theorem run_quoted {text : CStr} (h : quote ∉ text) (rest : CStr) :
    (Lexer.mk headTokens [] (some ⟨[], true⟩) .single).run (text ++ quote :: rest) =
      (Lexer.mk headTokens [] (some ⟨text, true⟩) .bare).run rest := by
  have hsingle := @Lexer.run_single ⟨headTokens, [], some ⟨[], true⟩, .single⟩ text rfl rfl h
  rw [Lexer.run_append, hsingle, Option.bind_some]
  rfl

theorem tokens_of_quoted (hlen : message.length ≤ 1023) (h : quote ∉ message) :
    tokens (ollamaCommand message) = some (ollamaTokens message) := by
  have hhead := quote_notMem_bodyHead
  have hbody : quote ∉ ollamaBody message := by
    simp only [ollamaBody, List.mem_append, not_or]
    exact ⟨⟨hhead, h⟩, quote_notMem_bodyTail⟩
  rw [tokens_ollama hlen, run_quoted hbody]
  rfl

/-- With an apostrophe in the message one is missing from the words. -/
theorem quote_lost {ts : List Token} (hlen : message.length ≤ 1023) (h : quote ∈ message)
    (hts : tokens (ollamaCommand message) = some ts) : tokenQuotes ts < countQuotes message := by
  obtain ⟨front, back, rfl, hfront⟩ := List.eq_append_cons_of_mem h
  have hleft : quote ∉ bodyHead ++ front := by
    rw [List.mem_append, not_or]
    exact ⟨quote_notMem_bodyHead, hfront⟩
  have hsplit : ollamaBody (front ++ quote :: back) ++ quote :: commandTail =
      (bodyHead ++ front) ++ quote :: ((back ++ bodyTail.dropLast) ++ '\x7d' :: quote :: commandTail) := by
    rw [ollamaBody, around_quotes.2.1]
    simp
  rw [tokens_ollama hlen, hsplit, run_quoted hleft] at hts
  have hlost := last_quote_lost (by decide) (by decide +kernel) hts
  have hback : countQuotes (back ++ bodyTail.dropLast ++ ['\x7d']) = countQuotes back := by
    have hnone : countQuotes (bodyTail.dropLast ++ ['\x7d']) = 0 := by
      rw [← around_quotes.2.1]
      exact around_quotes.1
    rw [List.append_assoc, countQuotes, List.count_append]
    exact congrArg _ hnone
  have hstart : (Lexer.mk headTokens [] (some ⟨bodyHead ++ front, true⟩) .bare).quotes = 0 := by
    rw [quotes_bare rfl]
    have hword : countQuotes (bodyHead ++ front) = 0 := List.count_eq_zero.mpr hleft
    exact Nat.add_eq_zero_iff.mpr ⟨around_quotes.2.2.1, hword⟩
  have hall : countQuotes (front ++ quote :: back) = countQuotes back + 1 := by
    rw [countQuotes, List.count_append, List.count_eq_zero.mpr hfront, List.count_cons_self, Nat.zero_add]
    rfl
  omega

theorem tokenQuotes_ollama (message : CStr) : tokenQuotes (ollamaTokens message) = countQuotes message := by
  have hhead := bodyHead_facts.1
  obtain ⟨htail, -, hfront, hback⟩ := around_quotes
  have hbody : countQuotes (ollamaBody message) = countQuotes message := by
    simp only [countQuotes, ollamaBody, List.count_append] at hhead htail ⊢
    omega
  rw [ollamaTokens, tokenQuotes_append, tokenQuotes_concat, hfront, hback, Nat.zero_add, Nat.add_zero]
  exact hbody

/-- For every message that fits its buffer: the shell reads the words and the
redirection that are meant, with the whole message in the argument of `-d`,
exactly when the message has no apostrophe. -/
theorem message_quoted_iff (message : CStr) (hlen : message.length ≤ 1023) :
    tokens (ollamaCommand message) = some (ollamaTokens message) ↔ quote ∉ message := by
  refine ⟨fun hts hmem => ?_, tokens_of_quoted hlen⟩
  have hlost := quote_lost hlen hmem hts
  rw [tokenQuotes_ollama] at hlost
  exact Nat.lt_irrefl _ hlost

theorem greeting_quoted :
    tokens (ollamaCommand "ping \"cam-1\" $(x)".toList) = some (ollamaTokens "ping \"cam-1\" $(x)".toList) ↔
      quote ∉ "ping \"cam-1\" $(x)".toList :=
  message_quoted_iff "ping \"cam-1\" $(x)".toList (by decide)

/-- A message that ends the argument and appends a command of its own. -/
theorem injection_not_quoted :
    ¬ ∀ message : CStr, message.length ≤ 1023 → tokens (ollamaCommand message) = some (ollamaTokens message) := by
  intro h
  have hlen : "\x27; reboot; \x27".toList.length ≤ 1023 := by decide
  have hlost := quote_lost hlen (by decide) (h _ hlen)
  rw [tokenQuotes_ollama] at hlost
  exact Nat.lt_irrefl _ hlost

end Htsn.Ai
