namespace KawaiiLang

/-- Why reading or writing failed. -/
inductive StreamFault where
  /-- A line of the input is no text. -/
  | notText
  /-- The output did not do what it was asked to, and gave this reason. -/
  | refused (reason : String)
  deriving DecidableEq, Inhabited

namespace StreamFault

/-- The output holds no more. -/
@[match_pattern] abbrev sinkFull : StreamFault :=
  .refused "sink is full"

/-- The output allows no more flushes. -/
@[match_pattern] abbrev flushRefused : StreamFault :=
  .refused "flush refused"

/-- The reason in words. -/
def reason : StreamFault → String
  | notText => "stream did not contain valid UTF-8"
  | refused reason => reason

end StreamFault
end KawaiiLang
