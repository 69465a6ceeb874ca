import BleHost.Console.Basic
import BleHost.Proofs.Devices.History

/-!
# What a scan prints

A scan says how long it listens, tells of every sender that it hears for the first time, and in the
end reports how many there were and what has become known of each, the strongest signal first. These
texts, spelled out here, hang on nothing but the reports; and they are what the console prints
(`Console.scanBegun_eq`, `Console.heard_eq`, `Console.deviceTable_eq`).
-/

namespace BleHost

/-! ### Columns -/

namespace Text

/-- A text at the left of a column, which is filled up with blanks. -/
def atLeft (width : Nat) (text : String) : String :=
  String.ofList (text.toList.rightpad width ' ')

/-- A text at the right of a column, which is filled up with blanks. -/
def atRight (width : Nat) (text : String) : String :=
  String.ofList (text.toList.leftpad width ' ')

theorem padRight_eq (width : Nat) (text : String) : padRight width text = atLeft width text := by
  rw [padRight, atLeft, List.rightpad, String.ofList_append, String.ofList_toList,
    String.length_toList]

theorem padLeft_eq (width : Nat) (text : String) : padLeft width text = atRight width text := by
  rw [padLeft, atRight, List.leftpad, String.ofList_append, String.ofList_toList,
    String.length_toList]

/-- A text stands for itself where it is put into another. -/
theorem toString_eq (text : String) : toString text = text := rfl

end Text

/-! ### Lines -/

/-- What is printed when a sender is heard for the first time: its address, the strength of the
signal, and its name if it has told it. -/
def ScanReport.announcement (r : ScanReport) : String :=
  "  new device " ++ r.sender.text ++ " " ++ Text.atRight 4 (toString r.rssi.toInt) ++ " dBm " ++
    r.advertising.name?.getD "" ++ "\n"

/-- The row of a device in the report: its address and the type of that, the strength of its signal,
how often it has been seen, and its name if it has told it. -/
def Device.row (d : Device) : String :=
  "  " ++ Text.atLeft 17 d.address.text ++ "  " ++ Text.atLeft 7 d.addressType.name ++ "  " ++
    Text.atRight 4 (toString d.rssi.toInt) ++ "  " ++ Text.atRight 5 (toString d.seen) ++ "  " ++
    d.name?.getD "" ++ "\n"

/-! ### First reports -/

/-- The reports that are the first ones of their senders. -/
def firstReports (reports : List ScanReport) : List ScanReport :=
  reports.foldl
    (fun firsts r => if r.sender ∈ firsts.map (·.sender) then firsts else firsts ++ [r]) []

theorem firstReports_concat (reports : List ScanReport) (r : ScanReport) :
    firstReports (reports ++ [r]) =
      if r.sender ∈ (firstReports reports).map (·.sender) then firstReports reports
      else firstReports reports ++ [r] :=
  List.foldl_concat ..

/-- Every sender has a first report. -/
theorem mem_senders_firstReports {reports : List ScanReport} {address : Address} :
    address ∈ (firstReports reports).map (·.sender) ↔ address ∈ reports.map (·.sender) := by
  induction reports using List.reverseRecOn with
  | nil => rfl
  | append_singleton reports r ih =>
    rw [firstReports_concat, List.map_append, List.mem_append, ← ih]
    split
    · rename_i hmem
      refine ⟨.inl, fun h => h.elim id fun hlast => ?_⟩
      rwa [List.mem_singleton.1 hlast]
    · rw [List.map_append, List.mem_append]

/-! ### Texts -/

namespace Console

variable {c : Console} {reports : List ScanReport}

/-- What is printed when a console begins to listen. -/
def heading (seconds : Nat) (passive : Bool) : String :=
  "Scanning for " ++ toString seconds ++ "s (" ++ (if passive then "passive" else "active") ++
    ")...\n\n"

/-- What is printed as reports come in. -/
def announcements (reports : List ScanReport) : String :=
  String.join ((firstReports reports).map (·.announcement))

/-- What is printed in the end: how many senders there were, and a table with a row for each. -/
def report (reports : List ScanReport) : String :=
  "\n" ++ toString (reports.map (·.sender)).toFinset.card ++ " device(s) found\n" ++
    "  Address            Type     RSSI   Seen  Name\n" ++
    String.join ((DeviceTable.ofReports reports).bySignal.map (·.row))

theorem lines_cons (l : String) (ls : List String) : lines (l :: ls) = l ++ "\n" ++ lines ls := by
  rw [lines, List.map_cons, String.join_cons, lines]

theorem lines_nil : lines [] = "" := rfl

theorem scanBegun_eq (seconds : Nat) (passive : Bool) :
    scanBegun seconds passive = heading seconds passive := by
  have hend : ")...\n\n" = ")..." ++ "\n" ++ "\n" := rfl
  unfold scanBegun heading
  simp only [hend, Text.toString_eq, lines_cons, lines_nil, String.append_empty,
    String.empty_append, String.append_assoc]

theorem newDevice_eq (r : ScanReport) : newDevice r = r.announcement := by
  rw [newDevice, lines_cons, lines_nil, String.append_empty]
  unfold ScanReport.announcement
  rw [Text.padLeft_eq]

theorem row_eq (d : Device) :
    row d.address.text d.addressType.name (toString d.rssi.toInt) (toString d.seen)
      (d.name?.getD "") ++ "\n" = d.row := by
  unfold row Device.row
  rw [Text.padRight_eq, Text.padRight_eq, Text.padLeft_eq, Text.padLeft_eq]
  simp only [String.intercalate_cons_cons, String.intercalate_singleton, String.append_assoc]

/-- The table that is printed is the one made of the reports. -/
theorem deviceTable_eq (reports : List ScanReport) :
    deviceTable (.ofReports reports) = report reports := by
  have hcolumns : row "Address" "Type" "RSSI" "Seen" "Name" ++ "\n" =
      "  Address            Type     RSSI   Seen  Name\n" := by decide +kernel
  have hfound : " device(s) found\n" = " device(s) found" ++ "\n" := rfl
  have hrows : lines ((DeviceTable.ofReports reports).bySignal.map fun d =>
      row d.address.text d.addressType.name (toString d.rssi.toInt) (toString d.seen)
        (d.name?.getD "")) =
      String.join ((DeviceTable.ofReports reports).bySignal.map (·.row)) := by
    rw [lines, List.map_map]
    exact congrArg String.join (List.map_congr_left fun d _ => row_eq d)
  unfold deviceTable report
  rw [List.cons_append, List.cons_append, List.cons_append, List.nil_append, lines_cons, lines_cons,
    lines_cons, hcolumns, hrows, DeviceTable.size_ofReports, hfound, Text.toString_eq,
    String.empty_append]
  simp only [String.append_assoc]

theorem announcements_concat (reports : List ScanReport) (r : ScanReport) :
    announcements (reports ++ [r]) = announcements reports ++
      if ((DeviceTable.ofReports reports).update r).1 then r.announcement else "" := by
  have hnew : ((DeviceTable.ofReports reports).update r).1 = true ↔
      r.sender ∉ (firstReports reports).map (·.sender) := by
    rw [DeviceTable.update_fst, DeviceTable.get?_ofReports_eq_none, mem_senders_firstReports]
    simp
  rw [announcements, firstReports_concat]
  by_cases hmem : r.sender ∈ (firstReports reports).map (·.sender)
  · rw [if_pos hmem, if_neg fun h => hnew.1 h hmem, String.append_empty, announcements]
  · rw [if_neg hmem, if_pos (hnew.2 hmem), List.map_append, String.join_append, announcements]
    simp

/-- The table and what is printed follow the reports. -/
theorem heard_eq (deadline : Nat) (begun : String) (m : Message)
    (houtput : c.output = begun ++ announcements reports) :
    c.heard deadline (.ofReports reports) m =
      { c with
        stage := .listening deadline (.ofReports (reports ++ m.scanReport?.toList))
        output := begun ++ announcements (reports ++ m.scanReport?.toList) } := by
  unfold heard
  cases hreport : m.scanReport? with
  | none => simp [houtput]
  | some r =>
    simp only [Option.toList_some, DeviceTable.ofReports_concat, announcements_concat,
      ← String.append_assoc, ← houtput]
    cases ((DeviceTable.ofReports reports).update r).1 <;> simp [print, newDevice_eq]

end Console

end BleHost
