import VlmConvert.L2Table.TextTable
import VlmConvert.L3Document.HeadingLevels

/-!
# Picture data

`classify_picture` and `set_tabular_chart` of the writer
(`src/mapping/layout.cpp:790-845`): a picture's class, and its chart data from
rows of text whose first is the header row.

Results: `classifyPicture_texts` and `setTabularChart_texts`, neither touches
the text items.
-/
namespace VlmConvert.L3.LayoutWriter

open Bytes L2

/-- mirrors src/mapping/layout.cpp:790-803 -/
def classifyPicture (w : LayoutWriter) (picture : BodyChild) (className createdBy : Bytes) :
    LayoutWriter :=
  if className.isEmpty then w
  else { w with doc := { w.doc with
    pictures := w.doc.pictures.modify picture.index fun item => { item with
      info := { item.info with classification := item.info.classification ++
        [⟨className, createdBy⟩] }
      annotations := item.annotations ++
        [.classification (ascii "classification") createdBy [className]] } } }

/-- A title and a maker that are empty are not set.
mirrors src/mapping/layout.cpp:821-845 -/
def setTabularChart (w : LayoutWriter) (picture : BodyChild) (title : Bytes)
    (rows : List (List Bytes))
    (createdBy : Bytes) : LayoutWriter :=
  if rows.isEmpty then w
  else
    let (data, cut) := fillTableData rows 1
    { w with
      warnings := noteTableCut cut data (ascii "chart data")
        (bodyChildRef ⟨.picture, picture.index⟩)
        w.warnings
      doc := { w.doc with
        pictures := w.doc.pictures.modify picture.index fun item => { item with
          info := { item.info with
            tabularChart :=
              some (if title.isEmpty then (item.info.tabularChart.map Prod.fst).getD []
              else title, data)
            chartCreatedBy := if createdBy.isEmpty then item.info.chartCreatedBy else createdBy }
          annotations := item.annotations ++
            [.tabularChart (ascii "tabular_chart_data") title data] } } }

theorem classifyPicture_texts (w : LayoutWriter) (picture : BodyChild)
    (className createdBy : Bytes) :
    (classifyPicture w picture className createdBy).doc.texts = w.doc.texts := by
  unfold classifyPicture
  split
  · rfl
  · rfl

theorem setTabularChart_texts (w : LayoutWriter) (picture : BodyChild) (title : Bytes)
    (rows : List (List Bytes)) (createdBy : Bytes) :
    (setTabularChart w picture title rows createdBy).doc.texts = w.doc.texts := by
  unfold setTabularChart
  split
  · rfl
  · rfl

end VlmConvert.L3.LayoutWriter
