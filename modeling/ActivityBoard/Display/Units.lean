import ActivityBoard.Binary64.Shortest

namespace ActivityBoard

def Binary64.roundHalfUp (x : Binary64) : Binary64 :=
  let below := x.floor
  if 0.5 ≤ x - below then below + 1 else below

namespace Display

def percent (text : String) : String := text ++ "%"

def pressure (x : Binary64) : String := percent (x.roundHalfUp.toFixed 0)

def share (ticks perCore : Binary64) : String :=
  if perCore.isZero then "0%" else pressure (ticks * 100 / perCore)

/-- A clock frequency from megahertz, with about three digits from a gigahertz on. -/
def frequency (mhz : Binary64) : String :=
  if mhz < 1000 then mhz.shown ++ "MHz"
  else
    let giga := mhz / 1000
    let (scaled, unit) := if 1000 ≤ giga then (giga / 1000, "THz") else (giga, "GHz")
    let places := if scaled < 10 then 2 else if scaled < 100 then 1 else 0
    scaled.toFixed places ++ unit

def pair (a : Int) (aUnit : String) (b : Int) (bUnit : String) : String :=
  Int.repr a ++ aUnit ++ Int.repr b ++ bUnit

def millis (ticks : Binary64) (hertz : Nat) : Int :=
  (ticks * 1000 / Binary64.ofNat (max hertz 1)).toIntWithin
    (-9223372036854775808) 9223372036854775807

/-- Clock ticks as seconds and hundredths, or in the two largest units that apply. Each larger unit
rounds the one below it. -/
def elapsed (ticks : Binary64) (hertz : Nat) : String :=
  let ms := millis ticks hertz
  if ms < 100000 then pair (ms.tdiv 1000) "." ((ms.tmod 1000).tdiv 10) "s"
  else
    let secs := (ms + 500) / 1000
    if secs < 6000 then pair (secs / 60) "m" (secs % 60) "s"
    else
      let mins := (secs + 30) / 60
      if mins < 6000 then pair (mins / 60) "h" (mins % 60) "m"
      else
        let hours := (mins + 30) / 60
        pair (hours / 24) "d" (hours % 24) "h"

def kilo : Binary64 := 1024

def mega : Binary64 := kilo * 1024

def giga : Binary64 := mega * 1024

def tera : Binary64 := giga * 1024

/-- A size of zero or more bytes; a unit is used from 0.8 of it on. -/
def sizeUp (bytes : Binary64) : String :=
  if bytes < kilo then bytes.shown ++ "B"
  else if bytes < mega * 0.8 then (bytes / kilo).toFixed 1 ++ "KB"
  else if bytes < giga * 0.8 then (bytes / mega).toFixed 1 ++ "MB"
  else if bytes < tera * 0.8 then (bytes / giga).toFixed 1 ++ "G"
  else (bytes / tera).toFixed 1 ++ "T"

/-- A size in bytes; a shrinkage shows ten times its magnitude behind a minus sign. -/
def size (bytes : Binary64) : String :=
  if bytes < 0 then "-" ++ sizeUp (-bytes * 10) else sizeUp bytes

/-- A link rate from kilobits per second. -/
def rate (kbps : Binary64) : String :=
  if kbps < 1000 then kbps.shown ++ " Kbps"
  else if kbps < 1000000 then (kbps / 1000).toFixed 2 ++ " Mbps"
  else if kbps < 1000000000 then (kbps / 1000000).toFixed 2 ++ " Gbps"
  else (kbps / 1000000000).toFixed 2 ++ " Tbps"

end Display

end ActivityBoard
